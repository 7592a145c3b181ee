import LiveQuery.Paging
import LiveQuery.Query.State
import LiveQuery.Table

/-!
# A backend in memory

The backend holds a list of items for each service and answers requests from it: a request for one
item, for a page of a list, or for a change. Answers can be scripted ahead; they are used up first,
in order, by the requests of their service and kind.
-/

namespace LiveQuery

inductive Call where
  | get (service : String) (id : ItemId) (params : Option Fields)
  | find (service : String) (params : Option Fields)
  | mutate (mutation : Mutation)
  /-- Deliver the events of a service from now on. -/
  | bind (service : String)
  /-- Deliver them no longer. -/
  | unbind (service : String)

namespace Call

def toJson : Call → Json
  | get service id params =>
    .object
      [("call", .string "get"), ("id", id.toJson), ("params", Json.ofOption .object params),
       ("service", .string service)]
  | find service params =>
    .object
      [("call", .string "find"), ("params", Json.ofOption .object params),
       ("service", .string service)]
  | mutate m =>
    .object
      [("args", .array m.args), ("call", .string "mutate"), ("method", .string m.method.name),
       ("service", .string m.service)]
  | bind service => .object [("call", .string "bind"), ("service", .string service)]
  | unbind service => .object [("call", .string "unbind"), ("service", .string service)]

end Call

inductive Response where
  | data (data : Json) (metadata : Fields)
  | failure (failure : Failure)

structure Backend where
  services : Table String (List Json) := ∅
  conventions : Conventions := Conventions.standard
  /-- The length of a page if the request names none. -/
  pageSize : Option Nat := none
  /-- What happens at once whenever delivery begins: one round for each time. -/
  rounds : Table String (List (List Change)) := ∅
  /-- The scripted answers by service and kind of request. -/
  responses : Table (String × String) (List Response) := ∅
  /-- The id of the next item that comes without one. -/
  nextId : Nat := 1000

namespace Backend

def script (b : Backend) (service kind : String) (more : List Response) : Backend :=
  let known := (b.responses.get? (service, kind)).getD []
  { b with responses := b.responses.insert (service, kind) (known ++ more) }

def scripted? (b : Backend) (service kind : String) : Option (Response × Backend) :=
  match (b.responses.get? (service, kind)).getD [] with
  | [] => none
  | r :: rest => some (r, { b with responses := b.responses.insert (service, kind) rest })

def round (b : Backend) (service : String) : List Change × Backend :=
  match (b.rounds.get? service).getD [] with
  | [] => ([], b)
  | r :: rest => (r, { b with rounds := b.rounds.insert service rest })

def items? (b : Backend) (service : String) : Except Failure (List Json) :=
  match b.services.get? service with
  | some items => .ok items
  | none => .error (.unknownService service)

def seed (b : Backend) (service : String) (items : List Json) : Backend :=
  { b with services := b.services.insert service items }

def get (b : Backend) (service : String) (id : ItemId) :
    Backend × Except Failure (Json × Fields) :=
  match b.scripted? service "get" with
  | some (.data data metadata, b) => (b, .ok (data, metadata))
  | some (.failure failure, b) => (b, .error failure)
  | none =>
    (b, do
      let items ← b.items? service
      let named := fun item => ((b.conventions.idOf item).map (·.sameResource id)).getD false
      match items.find? named with
      | some item => .ok (item, [])
      | none => .error (.notFound service id))

/-- Answer a request for a page of a list: the items that the filter accepts, from `$skip` on, as
many as `$limit` allows. -/
def find (b : Backend) (service : String) (params : Option Fields) :
    Backend × Except Failure Page :=
  match b.scripted? service "find" with
  | some (.data data metadata, b) => (b, .ok { items := data.items?.getD [], metadata })
  | some (.failure failure, b) => (b, .error failure)
  | none =>
    (b, do
      let items ← b.items? service
      let filter := params.bind (Fields.get? · "query")
      let option := fun name => (filter.bind (·.get? name)).bind Json.nat64?
      let accepted := items.filter (Filter.accepts filter)
      let skip := (option "$skip").getD 0
      let page := accepted.drop skip
      let limit := (option "$limit").or b.pageSize
      .ok
        { items := (limit.map page.take).getD page
          metadata := [("skip", Json.int skip), ("total", Json.int accepted.length)] })

/-- The item with a member put over its members; a value that is no object stays as it is. -/
def withMember (item : Json) (key : String) (value : Json) : Json :=
  match item with
  | .object fs => .object (Fields.insert fs key value)
  | v => v

def patched (item patch : Json) : Json :=
  match item, patch with
  | .object fs, .object gs => .object (Fields.merge fs gs)
  | v, _ => v

def createItem (b : Backend) (service : String) (items : List Json) (item : Json) :
    Backend × Json :=
  let (item, nextId) :=
    match b.conventions.idOf item with
    | some _ => (item, b.nextId)
    | none => (withMember item "id" (Json.int b.nextId), b.nextId + 1)
  ({ b.seed service (items ++ [item]) with nextId }, item)

/-- Change or remove the item that a mutation names, and answer it in its last form. -/
def changeItem (b : Backend) (m : Mutation) (items : List Json) :
    Except Failure (Backend × Json) :=
  match m.args.head?.bind ItemId.ofJson? with
  | none => .error .missingId
  | some id =>
    match items.findIdx? fun item => b.conventions.idOf item == some id with
    | none => .error (.notFound m.service id)
    | some i =>
      let old := items.getD i .null
      let argument := m.args[1]?
      let item :=
        match m.method with
        | .update => withMember (argument.getD (.object [])) "id" id.toJson
        | .patch => (argument.map (patched old)).getD old
        | .create | .remove => old
      let items := if m.method = .remove then items.eraseIdx i else items.set i item
      .ok (b.seed m.service items, item)

def mutate (b : Backend) (m : Mutation) : Backend × Except Failure Json :=
  match b.scripted? m.service "mutate" with
  | some (.data data _, b) => (b, .ok data)
  | some (.failure failure, b) => (b, .error failure)
  | none =>
    match b.items? m.service with
    | .error failure => (b, .error failure)
    | .ok items =>
      if m.method = .create then
        let (b, item) := b.createItem m.service items (m.args.head?.getD (.object []))
        (b, .ok item)
      else
        match b.changeItem m items with
        | .ok (b, item) => (b, .ok item)
        | .error failure => (b, .error failure)

/-- Fetch a whole list page by page. Each answer uses up a scripted one or brings the list forward,
which bounds the number of requests. -/
def findAll (b : Backend) (service : String) (params : Option Fields) : Pager.Walk :=
  let scripted := ((b.responses.get? (service, "find")).getD []).length
  let items := ((b.services.get? service).getD []).length
  Pager.walk (fun b request => b.find service (some request)) (scripted + items + 2) b
    (Pager.start params)

end Backend

end LiveQuery
