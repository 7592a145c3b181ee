import LiveQuery.Proofs.Json.Equality
import LiveQuery.Proofs.Query.Identity

/-!
# Which descriptors share an id

Two call sites may describe a query in different words: params are equal as values if they are
equal as maps at every level, and their numbers are equal by value. Descriptors that are equal in
this sense have one identity text, and so one id, exactly if their zeros have the same signs
(`QueryId.ofQuery_of_alike`). The order in which members were written never matters, nor
does a matcher. The sign of a zero does: `0.0` equals `-0.0` and is written in another way, so
two equal descriptors can have different ids (`Notes.weightless_notes_apart`).
-/

namespace LiveQuery

namespace Descriptor

/-- The params as one value, which is null if there are none. -/
def paramsValue (d : Descriptor) : Json := Json.ofOption .object d.params

/-- Names are sorted at every level of the params. -/
def Ordered (d : Descriptor) : Prop := d.paramsValue.Ordered

/-- Two descriptors are equal as values. -/
structure Alike (d e : Descriptor) : Prop where
  service : d.service = e.service
  method : d.method = e.method
  resourceId : d.resourceId = e.resourceId
  params : d.paramsValue.Alike e.paramsValue

/-- The signs of the zeros among the params. -/
def zeroSigns (d : Descriptor) : List Bool := d.paramsValue.zeroSigns

variable {d e : Descriptor}

theorem eq_of_paramsValue (alike : d.Alike e) (same : d.paramsValue = e.paramsValue) : d = e := by
  have hobject : ∀ ms, Json.object ms ≠ .null := fun ms h => nomatch h
  have hparams := Json.ofOption_inj hobject (fun ms ns => Json.object.inj) same
  obtain ⟨hservice, hmethod, hresource, -⟩ := alike
  obtain ⟨service, method, resourceId, params⟩ := d
  obtain ⟨service', method', resourceId', params'⟩ := e
  subst hservice hmethod hresource hparams
  rfl

/-- Descriptors that are equal as values are the same up to the signs of their zeros. -/
theorem Alike.eq_iff (alike : d.Alike e) (hd : d.Ordered) (he : e.Ordered) :
    d = e ↔ d.zeroSigns = e.zeroSigns := by
  unfold zeroSigns
  rw [← Json.eq_iff_zeroSigns alike.params hd he]
  exact ⟨congrArg paramsValue, eq_of_paramsValue alike⟩

end Descriptor

theorem Options.ordered_split {o : Options} (fields : (Json.object o.fields).Ordered)
    (service : String) (method : Method) (resourceId : Option ItemId) :
    (o.split service method resourceId).1.Ordered := by
  unfold Descriptor.Ordered Descriptor.paramsValue Options.split
  dsimp only
  split
  · exact .null
  · exact fields.filter _

/-- **Equal descriptors share an id, up to the signs of zeros.** For descriptors that are equal as
values and configurations that differ at most in their matchers, the identity texts are equal
exactly if the zeros among the params have the same signs, and then so are the ids. -/
theorem QueryId.ofQuery_of_alike {d e : Descriptor} {c k : Config} (hd : d.Ordered) (he : e.Ordered)
    (alike : d.Alike e) (agrees : c.Agrees k) :
    (identityText d c = identityText e k ↔ d.zeroSigns = e.zeroSigns) ∧
    (d.zeroSigns = e.zeroSigns → QueryId.ofQuery d c = QueryId.ofQuery e k) := by
  have htext : identityText d c = identityText e k ↔ d.zeroSigns = e.zeroSigns := by
    rw [identityText_eq_iff, and_iff_left agrees]
    exact alike.eq_iff hd he
  refine ⟨htext, fun hsigns => ?_⟩
  unfold QueryId.ofQuery
  rw [htext.mpr hsigns]

namespace Notes

/-- List the notes with a given weight and tag, the members of the filter written in some order. -/
def listing (filter : List (String × Json)) : Descriptor where
  service := "notes"
  method := .find
  resourceId := none
  params := some [("query", .object (Fields.ofList filter))]

def zero (negative : Bool) : Json := .number (.float ⟨negative, 0⟩)

theorem ordered_listing {filter : List (String × Json)} (values : ∀ m ∈ filter, m.2.Ordered) :
    (listing filter).Ordered := by
  have hfilter : (Json.object (Fields.ofList filter)).Ordered := Json.Ordered.empty.merge values
  exact Json.Ordered.empty.insert hfilter "query"

/-- The tag first or the weight first, with a matcher or without: the id is the same. -/
theorem ideas_without_weight :
    QueryId.ofQuery (listing [("tag", .string "idea"), ("weight", zero true)]) {} =
      QueryId.ofQuery (listing [("weight", zero true), ("tag", .string "idea")])
        { matcher := some Matcher.everything } := by
  refine (QueryId.ofQuery_of_alike ?_ ?_ ⟨rfl, rfl, rfl, ?_⟩ ⟨rfl, rfl, rfl, rfl⟩).2 ?_
  · exact ordered_listing (by simp [zero, Json.Ordered.string, Json.Ordered.number])
  · exact ordered_listing (by simp [zero, Json.Ordered.string, Json.Ordered.number])
  · exact Json.alike_of_beq _ _ (by decide +kernel)
  · decide +kernel

/-- The weights `0.0` and `-0.0` are equal numbers, but the ids are different. -/
theorem weightless_notes_apart :
    (listing [("weight", zero false)]).Ordered ∧ (listing [("weight", zero true)]).Ordered ∧
    (listing [("weight", zero false)]).Alike (listing [("weight", zero true)]) ∧
    QueryId.ofQuery (listing [("weight", zero false)]) {} ≠
      QueryId.ofQuery (listing [("weight", zero true)]) {} := by
  refine ⟨?_, ?_, ⟨rfl, rfl, rfl, ?_⟩, ?_⟩
  · exact ordered_listing (by simp [zero, Json.Ordered.number])
  · exact ordered_listing (by simp [zero, Json.Ordered.number])
  · exact Json.alike_of_beq _ _ (by decide +kernel)
  · decide +kernel

end Notes

end LiveQuery
