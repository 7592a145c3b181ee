import LiveQuery.Failure

/-!
# Events and mutations

An event says what happened to an item of a service. A mutation asks the backend to make something
happen; its result is applied to the cache as the event it amounts to.
-/

namespace LiveQuery

/-- A value with a fixed name is given by the name itself, or by an object whose only member has
that name and the value `null`. -/
def Json.named? {α : Type} (ofName? : String → Option α) : Json → Option α
  | .string name => ofName? name
  | .object [(name, .null)] => ofName? name
  | _ => none

inductive EventKind where
  | created | updated | patched | removed
  deriving DecidableEq, Repr

namespace EventKind

def name : EventKind → String
  | created => "created"
  | updated => "updated"
  | patched => "patched"
  | removed => "removed"

def ofName? : String → Option EventKind
  | "created" => some created
  | "updated" => some updated
  | "patched" => some patched
  | "removed" => some removed
  | _ => none

end EventKind

structure Change where
  kind : EventKind
  item : Json

structure Event where
  service : String
  change : Change

inductive MutationMethod where
  | create | update | patch | remove
  deriving DecidableEq, Repr

namespace MutationMethod

def name : MutationMethod → String
  | create => "create"
  | update => "update"
  | patch => "patch"
  | remove => "remove"

def ofName? : String → Option MutationMethod
  | "create" => some create
  | "update" => some update
  | "patch" => some patch
  | "remove" => some remove
  | _ => none

def parse (name : String) : Except Failure MutationMethod :=
  match ofName? name with
  | some method => .ok method
  | none => .error (.unknownMethod name)

/-- The event that a successful mutation amounts to. -/
def eventKind : MutationMethod → EventKind
  | create => .created
  | update => .updated
  | patch => .patched
  | remove => .removed

end MutationMethod

structure Mutation where
  service : String
  method : MutationMethod
  args : List Json

namespace Mutation

def create (service : String) (data : Json) : Mutation := ⟨service, .create, [data]⟩

def update (service : String) (id : ItemId) (data : Json) : Mutation :=
  ⟨service, .update, [id.toJson, data]⟩

def patch (service : String) (id : ItemId) (data : Json) : Mutation :=
  ⟨service, .patch, [id.toJson, data]⟩

def remove (service : String) (id : ItemId) : Mutation := ⟨service, .remove, [id.toJson]⟩

end Mutation

end LiveQuery
