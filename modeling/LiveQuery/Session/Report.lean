import LiveQuery.Session.Run

/-!
# Reports

What a session has done, as values: the answer of each step, the requests made, the calls of
listeners, and the cached state of all services whenever it has changed. What has no order of its
own is put in order: entities and memberships by item id, queries by query id, requests by their
text.
-/

namespace LiveQuery

def orderedBy {α β : Type} (key : α → β) (compare : β → β → Ordering) (a b : α) : Bool :=
  (compare (key a) (key b)).isLE

namespace Table

def sorted {κ α : Type} (t : Table κ α) (compare : κ → κ → Ordering) : List (κ × α) :=
  t.entries.mergeSort (orderedBy Prod.fst compare)

def toJson {α : Type} (t : Table String α) (value : α → Json) : Json :=
  .object (Fields.ofList (t.entries.map fun e => (e.1, value e.2)))

end Table

namespace Service

def toJson (s : Service) : Json :=
  let queries := s.queries.sorted QueryId.compare
  .object
    [("entities", .array <| (s.entities.sorted ItemId.compare).map fun (id, item) =>
        .array [id.toJson, item]),
     ("index", .array <| (s.index.sorted ItemId.compare).map fun (id, holders) =>
        let holders := holders.mergeSort fun a b => (a.compare b).isLE
        .array [id.toJson, .array (holders.map fun q => .string q.text)]),
     ("queries", .array <| queries.map fun (id, q) =>
        .object
          [("config", q.config.toJson), ("desc", q.descriptor.toJson), ("id", .string id.text),
           ("state", q.state.toJson)])]

/-- A service in brief: the ids of its entities, how many queries hold each, and where its queries
stand. -/
def briefJson (s : Service) : Json :=
  let queries := s.queries.sorted QueryId.compare
  .object
    [("entities", .array ((s.entities.sorted ItemId.compare).map fun e => e.1.toJson)),
     ("index", .array <| (s.index.sorted ItemId.compare).map fun (id, holders) =>
        .array [id.toJson, Json.int holders.length]),
     ("queries", .array <| queries.map fun (id, q) =>
        .array
          [.string id.text, .string q.state.status.name, .bool q.state.isFetching,
           Json.int q.state.items.length, q.state.item?.getD .null])]

end Service

namespace Refusal

def name : Refusal → String
  | noQuery => "NoQuery"
  | noHandle => "NoHandle"
  | noSink => "NoSink"
  | storeDropped => "StoreDropped"
  | unreadable => "Serialization"

def toJson (r : Refusal) : Json := .object [("error", .string r.name)]

end Refusal

/-- An answer as a value. -/
def Answer.toJson : Answer → Json
  | nothing => .null
  | reference id => .object [("id", .string id.text)]
  | query id => .string id.text
  | state s => s.toJson
  | count n => Json.int n
  | text s => .string s
  | services t => t.toJson Service.toJson
  | item i => .object [("item", i)]
  | failed f => f.toJson
  | refused r => r.toJson

namespace Delivery

def toJson : Delivery → Json
  | state _ label s => .object [("listener", .string label), ("state", s.toJson)]
  | snapshot label services =>
    .object [("snapshot", services.toJson Service.briefJson), ("watcher", .string label)]

/-- The calls of the listeners of queries by the ids of their queries, then those of the listeners
of the whole store. -/
def arranged (deliveries : List Delivery) : List Delivery :=
  let ofQueries := deliveries.filterMap fun d =>
    match d with
    | state id _ _ => some (id, d)
    | snapshot _ _ => none
  let ofStore := deliveries.filter fun d =>
    match d with
    | state _ _ _ => false
    | snapshot _ _ => true
  (ofQueries.mergeSort (orderedBy Prod.fst QueryId.compare)).map Prod.snd ++ ofStore

end Delivery

/-- Requests by their text. -/
def Call.arranged (calls : List Call) : List Json :=
  (calls.map fun c => (c.toJson.text, c.toJson)).mergeSort (orderedBy Prod.fst Ord.compare)
    |>.map Prod.snd

namespace Session

def entry (name : String) (v : Json) : Fields :=
  match v with
  | .null => []
  | .array [] => []
  | v => [(name, v)]

def report (s : Session) (answer : Answer) (last : Json) : Json × Json :=
  let state := s.store.services.toJson Service.toJson
  let changed := s.held && !(state == last)
  (.object
    (entry "calls" (.array (Call.arranged s.calls)) ++
     entry "notified" (.array ((Delivery.arranged s.deliveries).map Delivery.toJson)) ++
     entry "result" answer.toJson ++
     (if changed then [("state", state)] else [])),
   if changed then state else last)

def reports (s : Session) (last : Json) : List Step → List Json
  | [] => []
  | step :: steps =>
    let (s, answer) := s.step step
    let (report, last) := s.report answer last
    report :: reports s last steps

end Session

end LiveQuery
