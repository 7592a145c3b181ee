import LiveQuery.Session.Basic
import LiveQuery.Text.Quoted

/-!
# Doing what is left to do

`Session.perform` does one frame. What the store asks of the world outside is done by
`Session.serve`: a call of a listener is noted and its own steps come next, a fetch or a timer
becomes a task, and the events with which the backend greets a new binding are emitted at once.
-/

namespace LiveQuery.Session

/-- Call a listener: note the call, and let the listener do its steps for it. -/
def callListener (s : Session) (listener : ListenerId) (payload : Payload) : Session :=
  match s.audience.get? listener with
  | none => s
  | some audience =>
    let delivery :=
      match payload with
      | .state state => (audience.query.map fun id => Delivery.state id audience.label state).toList
      | .snapshot services => [Delivery.snapshot audience.label services]
    let s :=
      { s with
        deliveries := s.deliveries ++ delivery
        audience :=
          s.audience.insert listener { audience with onCall := audience.onCall.drop 1 } }
    s.push ((audience.onCall.head?.map Frame.steps).toList)

def serve (s : Session) : Signal → Session
  | .call listener payload => s.callListener listener payload
  | .fetch request =>
    { s with ready := s.ready ++ [.ask { request, pager := Pager.start request.params }] }
  | .timer window deadline => { s with timers := s.timers ++ [(window, deadline)] }
  | .bind service =>
    let (changes, backend) := s.backend.round service
    let sinks := if service ∈ s.sinks then s.sinks else s.sinks ++ [service]
    ({ s with backend, sinks }.record (.bind service)).push (changes.map (.emit service))
  | .unbind service => s.record (.unbind service)

def nextCall (fetch : Fetch) : Except Failure Call :=
  let r := fetch.request
  match r.method with
  | .get =>
    match r.resourceId with
    | some id => .ok (.get r.service id r.params)
    | none => .error (.missingResourceId r.service)
  | .find => .ok (.find r.service (if r.allPages then some fetch.pager.request else r.params))

def complete (s : Session) (request : Request) (answer : Except Failure (QueryData × Fields)) :
    Session :=
  s.proceed (s.store.complete s.setup request answer)

/-- Send the next request of a fetch and go through the gate, or wait there. -/
def ask (s : Session) (fetch : Fetch) : Session :=
  match nextCall fetch with
  | .error failure => s.complete fetch.request (.error failure)
  | .ok call =>
    let s := s.record call
    let service := fetch.request.service
    match s.gates.get? service with
    | none => s.push [.receive fetch]
    | some gate =>
      if 0 < gate.permits then
        { s with gates := s.gates.insert service { gate with permits := gate.permits - 1 } }.push
          [.receive fetch]
      else
        { s with
          gates := s.gates.insert service { gate with waiting := gate.waiting ++ [fetch] } }

def receive (s : Session) (fetch : Fetch) : Session :=
  match nextCall fetch with
  | .ok (.get service id _) =>
    let (backend, answer) := s.backend.get service id
    { s with backend }.complete fetch.request (answer.map fun (item, m) => (.item item, m))
  | .ok (.find service params) =>
    let (backend, answer) := s.backend.find service params
    let s := { s with backend }
    match answer with
    | .error failure => s.complete fetch.request (.error failure)
    | .ok page =>
      if fetch.request.allPages then
        let pager := fetch.pager.take page
        if fetch.pager.isLast page then
          s.complete fetch.request (.ok (.list pager.result.items, pager.result.metadata))
        else s.push [.ask { fetch with pager }]
      else s.complete fetch.request (.ok (.list page.items, page.metadata))
  | _ => s

/-- Listen to a query, and give the handle away once everything that follows is done. -/
def subscribe (s : Session) (query : QueryId) (label : String) (onCall : List (List Step)) :
    Session :=
  let (listener, transition) := s.store.subscribe query
  let s := { s with audience := s.audience.insert listener ⟨label, some query, onCall⟩ }
  (s.push [.keepHandle label query listener]).proceed transition

def ref? (s : Session) (label : String) : Except Refusal QueryRef :=
  if s.held then
    match s.refs.get? label with
    | some ref => .ok ref
    | none => .error .noQuery
  else .error .storeDropped

def withRef (s : Session) (label : String)
    (act : QueryRef → Session × (Session → Answer)) : Session × (Session → Answer) :=
  match s.ref? label with
  | .ok ref => act ref
  | .error refusal => (s, fun _ => .refused refusal)

def withStore (s : Session) (act : Session × (Session → Answer)) : Session × (Session → Answer) :=
  if s.held then act else (s, fun _ => .refused .storeDropped)

def materialize (s : Session) (ref : QueryRef) : Session :=
  s.proceed (s.store.materialize s.setup ref)

def release (s : Session) (service : String) (count : Nat) : Session :=
  match s.gates.get? service with
  | none => s
  | some gate =>
    let through := gate.waiting.take count
    { s with
      ready := s.ready ++ through.map .receive
      gates := s.gates.insert service
        { permits := gate.permits + (count - through.length)
          waiting := gate.waiting.drop count } }

def hold (s : Session) (service : String) : Session :=
  let waiting := ((s.gates.get? service).map Gate.waiting).getD []
  { s with gates := s.gates.insert service {}, stranded := s.stranded ++ waiting }

def mutate (s : Session) (service method : String) (args : List Json) : Session × Answer :=
  match MutationMethod.parse method with
  | .error failure => (s, .failed failure)
  | .ok method =>
    let m : Mutation := ⟨service, method, args⟩
    let (backend, answer) := s.backend.mutate m
    let s := { s with backend }.record (.mutate m)
    match answer with
    | .error failure => (s, .failed failure)
    | .ok item => (s.push [.work (.apply service [⟨method.eventKind, item⟩])], .item item)

/-- A sink for the events of a service as shown to a programmer; it is attached as long as there is
a store to take the events. -/
def describeSink (service : String) (attached : Bool) : String :=
  "RealtimeSink \x7b service_name: " ++ Text.quoted service ++ ", attached: " ++
    toString attached ++ " \x7d"

/-- Begin a step: the session with what the step leaves to do, and the answer to be read off once
that is done. -/
def start (s : Session) : Step → Session × (Session → Answer)
  | .refer label ref =>
    s.withStore <|
      match ref with
      | some ref => ({ s with refs := s.refs.insert label ref }, fun _ => .reference ref.id)
      | none => (s, fun _ => .refused .unreadable)
  | .materialize query => s.withRef query fun ref => (s.materialize ref, fun _ => .nothing)
  | .snapshot query =>
    s.withRef query fun ref =>
      (s.materialize ref,
       fun s => .state ((s.store.state? ref.id).getD (QueryState.initial ref.config.skip)))
  | .peek query =>
    s.withRef query fun ref =>
      (s, fun s => ((s.store.state? ref.id).map Answer.state).getD .nothing)
  | .subscribe query label onCall =>
    s.withRef query fun ref =>
      ((s.push [.subscribe ref.id label onCall]).materialize ref, fun _ => .nothing)
  | .subscribeById query label onCall =>
    s.withRef query fun ref => (s.subscribe ref.id label onCall, fun _ => .nothing)
  | .unsubscribe label vacuum =>
    match s.handles.get? label with
    | none => (s, fun _ => .refused .noHandle)
    | some (query, listener) =>
      let s := { s with handles := s.handles.erase label }
      (if s.gone then s else s.proceed (s.store.unsubscribe s.setup query listener vacuum),
       fun _ => .query query)
  | .refetch query =>
    s.withRef query fun ref =>
      ((s.push [.refetch ref.id]).materialize ref, fun _ => .nothing)
  | .refetchById query =>
    s.withRef query fun ref => (s.proceed (s.store.refetch ref.id), fun _ => .nothing)
  | .listeners query =>
    s.withRef query fun ref => (s, fun s => .count (s.store.listenersOf ref.id).length)
  | .watch label onCall =>
    s.withStore <|
      let (listener, store) := s.store.watch
      ({ s with
          store
          audience := s.audience.insert listener ⟨label, none, onCall⟩
          watching := s.watching.insert label listener },
       fun _ => .nothing)
  | .unwatch label =>
    match s.watching.get? label with
    | none => (s, fun _ => .refused .noHandle)
    | some listener =>
      ({ s with store := s.store.unwatch listener, watching := s.watching.erase label },
       fun _ => .nothing)
  | .emit service change =>
    if service ∈ s.sinks then
      (if s.gone then s else s.push [.emit service change], fun _ => .text service)
    else (s, fun _ => .refused .noSink)
  | .sink service =>
    (s, fun s =>
      if service ∈ s.sinks then
        .text (describeSink service (!s.gone))
      else .refused .noSink)
  | .flush => s.withStore (s.proceed s.store.flush, fun _ => .nothing)
  | .pending => s.withStore (s, fun s => .count s.store.batch.queue.length)
  | .interval => s.withStore (s, fun s => .count s.setup.batchInterval)
  | .services => s.withStore (s, fun s => .services s.store.services)
  | .mutate service method args =>
    s.withStore <|
      let (s, answer) := s.mutate service method args
      (s, fun _ => answer)
  | .settle => (s, fun _ => .nothing)
  | .advance _ => (s, fun _ => .nothing)
  | .seed service items =>
    ({ s with backend := s.backend.seed service items }, fun _ => .nothing)
  | .script service kind responses =>
    ({ s with backend := s.backend.script service kind responses }, fun _ => .nothing)
  | .hold service => (s.hold service, fun _ => .nothing)
  | .release service count => (s.release service count, fun _ => .nothing)
  | .dropStore => ({ s with held := false, refs := ∅ }, fun _ => .nothing)

def perform (s : Session) : Frame → Session
  | .work work =>
    let (store, work, signal) := s.store.run s.setup work
    let s := s.proceed (store, work)
    match signal with
    | some signal => s.serve signal
    | none => s
  | .steps [] => s
  | .steps (step :: steps) => ((s.push [.steps steps]).start step).1
  | .subscribe query label onCall => s.subscribe query label onCall
  | .keepHandle label query listener =>
    { s with handles := s.handles.insert label (query, listener) }
  | .refetch query => s.proceed (s.store.refetch query)
  | .emit service change => s.proceed (s.store.emit s.setup s.clock ⟨service, change⟩)
  | .ask fetch => s.ask fetch
  | .receive fetch => s.receive fetch
  | .closeWindow window => s.proceed (s.store.flushWindow window)

end LiveQuery.Session
