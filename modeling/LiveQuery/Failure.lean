import LiveQuery.Item

/-!
# Failures

What can go wrong between a query or a mutation and its result, with the text shown for it.
-/

namespace LiveQuery

inductive Failure where
  | transport (reason : String)
  | notFound (service : String) (id : ItemId)
  | unknownService (service : String)
  | unknownMethod (name : String)
  | missingResourceId (service : String)
  | missingId
  | noRuntime (reason : String)
  | serialization (reason : String)
  deriving DecidableEq, Repr

namespace Failure

def message : Failure → String
  | transport reason => "Transport error: " ++ reason
  | notFound service id => "Item not found: " ++ service ++ "/" ++ id.text
  | unknownService service => "Unknown service: " ++ service
  | unknownMethod name => "Unknown mutation method: " ++ name
  | missingResourceId service => "Get query on " ++ service ++ " has no resource id"
  | missingId => "Item has no id"
  | noRuntime reason => "No async runtime available: " ++ reason
  | serialization reason => "Serialization error: " ++ reason

def kind : Failure → String
  | transport _ => "Transport"
  | notFound _ _ => "NotFound"
  | unknownService _ => "UnknownService"
  | unknownMethod _ => "UnknownMethod"
  | missingResourceId _ => "MissingResourceId"
  | missingId => "MissingId"
  | noRuntime _ => "NoRuntime"
  | serialization _ => "Serialization"

def toJson (f : Failure) : Json :=
  .object [("error", .string f.kind), ("message", .string f.message)]

end Failure

end LiveQuery
