import LiveQuery.Session.Frames

/-!
# Running a session

A step is done when nothing is left on the agenda. Settling goes on to the tasks: each ready task in
turn is put on the agenda and done until it is over or waits at a gate. The number of frames done
for one step is bounded by `patience`.
-/

namespace LiveQuery.Session

/-- The session after its next frame; nothing if there is none, or only tasks and they have to wait
for the session to settle. -/
def next? (settling : Bool) (s : Session) : Option Session :=
  match s.agenda with
  | frame :: rest => some ({ s with agenda := rest }.perform frame)
  | [] =>
    if settling then
      match s.ready with
      | task :: rest => some { s with agenda := [task], ready := rest }
      | [] => none
    else none

def exhaust (settling : Bool) : (fuel : Nat) → Session → Session
  | 0, s => s
  | fuel + 1, s =>
    match s.next? settling with
    | some s => exhaust settling fuel s
    | none => s

/-- How many frames a session does for one step at most: more than any session that is not meant to
run for ever. -/
def patience : Nat := 0x10000000000

def settle (s : Session) : Session := s.exhaust true patience

/-- Move the clock; the timers that run out become tasks, those with the earlier deadlines first. -/
def moveClock (s : Session) (milliseconds : Nat) : Session :=
  let clock := s.clock + milliseconds
  let due := (s.timers.filter fun t => t.2 ≤ clock).mergeSort fun t u => t.2 ≤ u.2
  { s with
    clock
    timers := s.timers.filter fun t => clock < t.2
    ready := s.ready ++ due.map fun t => .closeWindow t.1 }

/-- Let go of the store once neither its owner nor a task holds it; the backend is then told to
deliver no more events. -/
def letGo (s : Session) : Session :=
  if s.held || s.gone || s.hasTasks then s
  else { s with gone := true, calls := s.calls ++ s.store.bound.map .unbind }

def step (s : Session) (step : Step) : Session × Answer :=
  let (s, answer) := { s with calls := [], deliveries := [] }.start step
  let s :=
    match step with
    | .settle => s.settle
    | .advance milliseconds => (s.settle.moveClock milliseconds).settle
    | _ => s.exhaust false patience
  let s := s.letGo
  (s, answer s)

end LiveQuery.Session
