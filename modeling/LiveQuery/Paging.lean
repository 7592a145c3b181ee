import LiveQuery.Failure

/-!
# A list fetched page by page

A backend may answer a request for a list with only a part of it. The pager asks again with `$skip`
moved past what it has, until it has as many items as the latest `total` says or a page is empty; a
page that reports no total is the last. What it hands over has all items in order and the metadata
of the first page, with the total, if there is one, set to the number of items.
-/

namespace LiveQuery

structure Page where
  items : List Json := []
  metadata : Fields := []

structure Pager where
  /-- The params of every request, but for the filter. -/
  params : Fields
  /-- The filter of every request, but for `$skip`. -/
  query : Fields
  skip : Nat
  collected : List Json := []
  /-- The metadata of the first page. -/
  metadata : Option Fields := none

namespace Pager

def start (params : Option Fields) : Pager :=
  let params := params.getD []
  let query := ((Fields.get? params "query").bind Json.members?).getD []
  { params, query, skip := ((Fields.get? query "$skip").bind Json.nat64?).getD 0 }

def request (p : Pager) : Fields :=
  Fields.insert p.params "query" (.object (Fields.insert p.query "$skip" (Json.int p.skip)))

def result (p : Pager) : Page :=
  let metadata := p.metadata.getD []
  { items := p.collected
    metadata :=
      if Fields.contains metadata "total" then
        Fields.insert metadata "total" (Json.int p.collected.length)
      else metadata }

def take (p : Pager) (page : Page) : Pager :=
  { p with
    skip := p.skip + page.items.length
    collected := p.collected ++ page.items
    metadata := some (p.metadata.getD page.metadata) }

def isLast (p : Pager) (page : Page) : Bool :=
  page.items.isEmpty ||
    match (Fields.get? page.metadata "total").bind Json.nat64? with
    | some total => total ≤ p.skip + page.items.length
    | none => true

/-- A fetching of a whole list: the params of every request made, and how it ended, if it did. -/
structure Walk where
  requests : List Fields := []
  outcome : Option (Except Failure Page) := none

/-- Fetch a list from a backend that answers requests one after the other, with at most `fuel`
requests. -/
def walk {σ : Type} (answer : σ → Fields → σ × Except Failure Page) :
    (fuel : Nat) → σ → Pager → Walk
  | 0, _, _ => {}
  | fuel + 1, backend, p =>
    let (backend, reply) := answer backend p.request
    match reply with
    | .error failure => { requests := [p.request], outcome := some (.error failure) }
    | .ok page =>
      if p.isLast page then
        { requests := [p.request], outcome := some (.ok (p.take page).result) }
      else
        let rest := walk answer fuel backend (p.take page)
        { rest with requests := p.request :: rest.requests }

end Pager

end LiveQuery
