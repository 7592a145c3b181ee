import LiveQuery.Digest.Sha256
import LiveQuery.Json.Text
import LiveQuery.Query.Options

/-!
# The identity of a query

Two call sites that describe the same query share one cached result. Its id is drawn from the
compact text of the query, in which members stand by increasing name at every level, so the order
in which params were written does not matter. The matcher is left out of it.
-/

namespace LiveQuery

structure QueryId where
  text : String
  deriving DecidableEq, Repr

def identityText (d : Descriptor) (c : Config) : String :=
  (Json.object [("config", c.toJson), ("desc", d.toJson)]).text

namespace QueryId

def keptBytes : Nat := 8

/-- The id of a query: the first bytes of the digest of its text. -/
def ofQuery (d : Descriptor) (c : Config) : QueryId :=
  let digest := Sha256.digest (identityText d c).toUTF8.toList
  ⟨"q/" ++ String.ofList (Sha256.hex (digest.take keptBytes))⟩

def describe (id : QueryId) : String := "QueryId(" ++ id.text ++ ")"

/-- Ids by their text. -/
protected def compare (a b : QueryId) : Ordering := Ord.compare a.text b.text

end QueryId

end LiveQuery
