import LiveQuery.Store.Transitions

/-!
# The store among its surroundings

A world is a store together with what it has asked for: work still to be done, requests not yet
answered, timers not yet run out. The outside acts on it by the store's operations whenever it has
control, which is when the store has nothing left to do and also while a listener or the backend is
being called from inside a transition's work. Answers and timers come only when nothing else is
going on. `Run` is every history that can come about this way, on one thread; what several threads
do to a store is the matter of `Threads`.
-/

namespace LiveQuery

/-- What is left to do: work of the store, or the rest of what the outside does before it gives
control back. -/
inductive Turn where
  | work (work : Work)
  | outside

structure World where
  store : Store := {}
  agenda : List Turn := []
  clock : Nat := 0
  /-- Fetches that were handed out and have not been answered. -/
  requests : List Request := []
  /-- Windows and deadlines of the timers that have not run out. -/
  timers : List (Nat × Nat) := []

/-- What can happen next. -/
inductive Act where
  | materialize (ref : QueryRef)
  | subscribe (query : QueryId)
  | unsubscribe (query : QueryId) (listener : ListenerId) (vacuum : Option Bool)
  | refetch (query : QueryId)
  | watch
  | unwatch (listener : ListenerId)
  | emit (event : Event)
  | flush
  /-- The result of a mutation is applied. -/
  | mutated (service : String) (change : Change)
  /-- The fetch that was begun for a query in the given epoch is answered. -/
  | answered (query : QueryId) (epoch : Nat) (answer : Except Failure (QueryData × Fields))
  /-- The timer of a window runs out. -/
  | timedOut (window : Nat)
  | tick (milliseconds : Nat)
  /-- The store does the next piece of its work. -/
  | goOn
  /-- The outside gives control back. -/
  | giveBack

namespace Request

def isFor (request : Request) (query : QueryId) (epoch : Nat) : Bool :=
  request.query == query && request.epoch == epoch

/-- Is an answer of the kind that was asked for: one item, or a list? -/
def fits (request : Request) : Except Failure (QueryData × Fields) → Bool
  | .error _ => true
  | .ok (.item _, _) => request.method == .get
  | .ok (.list _, _) => request.method == .find

end Request

namespace World

def isOpen (w : World) : Bool :=
  match w.agenda with
  | [] => true
  | .outside :: _ => true
  | .work _ :: _ => false

def proceed (w : World) (transition : Store × List Work) : World :=
  { w with
    store := transition.1
    agenda := transition.2.map .work ++ w.agenda }

/-- The world after the store has asked something of the outside. A called listener and a backend
that is asked to deliver events have control until they give it back. -/
def asked (w : World) : Signal → World
  | .call _ _ => { w with agenda := .outside :: w.agenda }
  | .bind _ => { w with agenda := .outside :: w.agenda }
  | .fetch request => { w with requests := w.requests ++ [request] }
  | .timer window deadline => { w with timers := w.timers ++ [(window, deadline)] }
  | .unbind _ => w

/-- The world after an act and what the store asks of the outside in it; nothing if the act cannot
happen now. -/
def act? (setup : Setup) (w : World) : Act → Option (World × Option Signal)
  | .materialize ref =>
    if w.isOpen then some (w.proceed (w.store.materialize setup ref), none) else none
  | .subscribe query =>
    if w.isOpen then some (w.proceed (w.store.subscribe query).2, none) else none
  | .unsubscribe query listener vacuum =>
    if w.isOpen ∧ (query, listener) ∈ w.store.listeners then
      some (w.proceed (w.store.unsubscribe setup query listener vacuum), none)
    else none
  | .refetch query => if w.isOpen then some (w.proceed (w.store.refetch query), none) else none
  | .watch => if w.isOpen then some ({ w with store := w.store.watch.2 }, none) else none
  | .unwatch listener =>
    if w.isOpen then some ({ w with store := w.store.unwatch listener }, none) else none
  | .emit event =>
    if w.isOpen then some (w.proceed (w.store.emit setup w.clock event), none) else none
  | .flush => if w.isOpen then some (w.proceed w.store.flush, none) else none
  | .mutated service change =>
    if w.isOpen then some (w.proceed (w.store, [.apply service [change]]), none) else none
  | .answered query epoch answer =>
    match w.requests.find? (·.isFor query epoch) with
    | some request =>
      if w.agenda.isEmpty ∧ request.fits answer then
        let w := { w with requests := w.requests.eraseP (·.isFor query epoch) }
        some (w.proceed (w.store.complete setup request answer), none)
      else none
    | none => none
  | .timedOut window =>
    match w.timers.find? fun t => t.1 = window ∧ t.2 ≤ w.clock with
    | some timer =>
      if w.agenda.isEmpty then
        some ({ w with timers := w.timers.erase timer }.proceed (w.store.flushWindow window), none)
      else none
    | none => none
  | .tick milliseconds =>
    if w.agenda.isEmpty then some ({ w with clock := w.clock + milliseconds }, none) else none
  | .goOn =>
    match w.agenda with
    | .work work :: rest =>
      let (store, more, signal) := w.store.run setup work
      let w := { w with agenda := rest }.proceed (store, more)
      some ((signal.map w.asked).getD w, signal)
    | _ => none
  | .giveBack =>
    match w.agenda with
    | .outside :: rest => some ({ w with agenda := rest }, none)
    | _ => none

end World

structure Happening where
  before : World
  act : Act
  signal : Option Signal
  after : World

/-- The histories of a store, from the first thing that happened on, and where they lead. -/
inductive Run (setup : Setup) : List Happening → World → Prop where
  | start : Run setup [] {}
  | act {history : List Happening} {w w' : World} {a : Act} {signal : Option Signal} :
      Run setup history w → w.act? setup a = some (w', signal) →
      Run setup (history ++ [⟨w, a, signal, w'⟩]) w'

end LiveQuery
