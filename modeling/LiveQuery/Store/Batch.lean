import LiveQuery.Event

/-!
# Batches of events

Events wait in a queue until the window that the first of them opened is closed, by its own timer or
by hand. Windows are numbered, and a timer closes only the window it was started for, so a window
closed by hand leaves its timer without effect.
-/

namespace LiveQuery

/-- The events that wait for the current window to close. -/
structure Batch where
  queue : List Event := []
  /-- Has a timer been started for the current window? -/
  scheduled : Bool := false
  /-- The number of the current window. -/
  window : Nat := 0

namespace Batch

/-- Let an event wait. If it opens the window, the window's number is given for a timer. -/
def push (b : Batch) (event : Event) : Batch × Option Nat :=
  ({ b with queue := b.queue ++ [event], scheduled := true },
   if b.scheduled then none else some b.window)

def drain (b : Batch) : List Event × Batch := (b.queue, { window := b.window + 1 })

/-- Close a window, if it is still the current one. -/
def drainWindow (b : Batch) (window : Nat) : List Event × Batch :=
  if window = b.window then b.drain else ([], b)

/-! Other threads may come between the steps of which `push` and `drain` are made up. -/

def send (b : Batch) (event : Event) : Batch := { b with queue := b.queue ++ [event] }
def schedule (b : Batch) : Batch := { b with scheduled := true }
def close (b : Batch) : Batch := { b with window := b.window + 1 }
def unschedule (b : Batch) : Batch := { b with scheduled := false }

def addToGroup : List (String × List Change) → Event → List (String × List Change)
  | [], event => [(event.service, [event.change])]
  | (service, changes) :: groups, event =>
    if service = event.service then (service, changes ++ [event.change]) :: groups
    else (service, changes) :: addToGroup groups event

/-- Events by service: the services in the order of their first events, and the events of each
service in their order. -/
def byService (events : List Event) : List (String × List Change) := events.foldl addToGroup []

end Batch

end LiveQuery
