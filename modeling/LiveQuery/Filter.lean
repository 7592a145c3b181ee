import LiveQuery.Json.Order

/-!
# Filters

A filter is an object whose members must all hold of an item. `$or` and `$and` combine filters;
`$limit`, `$skip`, `$sort` and `$select` shape a result and say nothing about membership; every
other name is a dotted path into the item, and its value is either a set of operators or the value
the field must have. A field that is missing and a field that is `null` are treated alike.
-/

namespace LiveQuery

def pathParts : List Char → List (List Char)
  | [] => [[]]
  | c :: cs =>
    if c = '.' then [] :: pathParts cs
    else match pathParts cs with
      | [] => [[c]]
      | part :: parts => (c :: part) :: parts

def Json.follow (item : Json) : List String → Option Json
  | [] => some item
  | name :: names => (item.get? name).bind (follow · names)

def Json.field? (item : Json) (path : String) : Option Json :=
  item.follow ((pathParts path.toList).map String.ofList)

namespace Filter

inductive Operator where
  | exists | eq | ne | oneOf | noneOf | lt | lte | gt | gte
  deriving DecidableEq, Repr

def Operator.ofName? : String → Option Operator
  | "$exists" => some .exists
  | "$eq" => some .eq
  | "$ne" => some .ne
  | "$in" => some .oneOf
  | "$nin" => some .noneOf
  | "$lt" => some .lt
  | "$lte" => some .lte
  | "$gt" => some .gt
  | "$gte" => some .gte
  | _ => none

/-- Is the value, or any element of it if it is an array, among the candidates? -/
def amongCandidates (value : Json) (candidates : List Json) : Bool :=
  match value with
  | .array values => values.any fun v => candidates.any (v == ·)
  | v => candidates.any (v == ·)

/-- Does the order of two values satisfy `accept`? It never does if either of them is `null`. -/
def ordered (value operand : Json) (accept : Ordering → Bool) : Bool :=
  !value.isNull && !operand.isNull && accept (value.compare operand)

def Operator.holds (op : Operator) (field : Option Json) (operand : Json) : Bool :=
  let value := field.getD .null
  match op with
  | .exists => (!value.isNull) == operand.bool?.getD true
  | .eq => value == operand
  | .ne => !(value == operand)
  | .oneOf => (operand.items?.map (amongCandidates value)).getD false
  | .noneOf => (operand.items?.map (!amongCandidates value ·)).getD true
  | .lt => ordered value operand (· == .lt)
  | .lte => ordered value operand (· != .gt)
  | .gt => ordered value operand (· == .gt)
  | .gte => ordered value operand (· != .lt)

/-- Are these members operators? They are if there is one and all names start with a dollar. -/
def areOperators (members : Fields) : Bool :=
  !members.isEmpty && members.all fun m => m.1.toList.head? == some '$'

/-- Does a condition hold of a field? An operator of an unknown name never does. -/
def fieldHolds (field : Option Json) (condition : Json) : Bool :=
  match condition.members? with
  | some ops =>
    if areOperators ops then
      ops.all fun m => ((Operator.ofName? m.1).map (·.holds field m.2)).getD false
    else field.getD .null == condition
  | none => field.getD .null == condition

/-- The names that shape a result without bearing on membership. -/
def shapingNames : List String := ["$limit", "$skip", "$sort", "$select"]

mutual

def allHold : List (String × Json) → Json → Bool
  | [], _ => true
  | (name, condition) :: rest, item => memberHolds name condition item && allHold rest item

def memberHolds (name : String) : Json → Json → Bool
  | .array subs, item =>
    if name = "$or" then anyOf subs item
    else if name = "$and" then eachOf subs item
    else if name ∈ shapingNames then true
    else fieldHolds (item.field? name) (.array subs)
  | condition, item =>
    if name = "$or" then false
    else if name = "$and" then true
    else if name ∈ shapingNames then true
    else fieldHolds (item.field? name) condition

def anyOf : List Json → Json → Bool
  | [], _ => false
  | .object sub :: subs, item => allHold sub item || anyOf subs item
  | _ :: subs, item => anyOf subs item

def eachOf : List Json → Json → Bool
  | [], _ => true
  | .object sub :: subs, item => allHold sub item && eachOf subs item
  | _ :: subs, item => eachOf subs item

end

/-- Does an item pass a filter? Anything that is no object lets every item pass. -/
def accepts (filter : Option Json) (item : Json) : Bool :=
  match filter with
  | some (.object members) => allHold members item
  | _ => true

end Filter

end LiveQuery
