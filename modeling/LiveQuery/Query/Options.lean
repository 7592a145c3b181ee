import LiveQuery.Query.Basic

/-!
# Options

A caller writes params for the backend and cache controls side by side in one bag. Splitting the bag
takes the four controls out and leaves the rest as params; a control with a value that means nothing
counts as its default.
-/

namespace LiveQuery

/-- A bag of params and cache controls. -/
structure Options where
  fields : Fields := []
  matcher : Option Matcher := none

namespace Options

/-- The members of an object as options; any other value gives none. -/
def ofJson (v : Json) : Options := { fields := v.members?.getD [] }

def param (o : Options) (key : String) (value : Json) : Options :=
  { o with fields := Fields.insert o.fields key value }

def query (o : Options) (filter : Json) : Options := o.param "query" filter
def skip (o : Options) (b : Bool) : Options := o.param "skip" (.bool b)
def allPages (o : Options) (b : Bool) : Options := o.param "allPages" (.bool b)
def realtime (o : Options) (mode : RealtimeMode) : Options := o.param "realtime" (.string mode.name)

def fetchPolicy (o : Options) (policy : FetchPolicy) : Options :=
  o.param "fetchPolicy" (.string policy.name)

def controlNames : List String := ["skip", "realtime", "fetchPolicy", "allPages"]

def params (o : Options) : Fields := o.fields.filter fun m => m.1 ∉ controlNames

def control {α : Type} (o : Options) (name : String) (read? : Json → Option α) (default : α) : α :=
  ((Fields.get? o.fields name).bind read?).getD default

def config (o : Options) : Config where
  skip := o.control "skip" Json.bool? false
  realtime := o.control "realtime" (Json.named? RealtimeMode.ofName?) .merge
  fetchPolicy := o.control "fetchPolicy" (Json.named? FetchPolicy.ofName?) .staleWhileRevalidate
  allPages := o.control "allPages" Json.bool? false
  matcher := o.matcher

/-- Separate the bag into what to fetch and how to keep it. -/
def split (o : Options) (service : String) (method : Method) (resourceId : Option ItemId) :
    Descriptor × Config :=
  ({ service, method, resourceId, params := if o.params.isEmpty then none else some o.params },
   o.config)

end Options

end LiveQuery
