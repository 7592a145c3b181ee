import LiveQuery.Proofs.Json.Text
import LiveQuery.Query.Identity

/-!
# What an id stands for

The text from which an id is drawn tells apart every two queries that differ: in the service, the
method, the resource, the params as JSON values, or one of the four controls. The matcher alone
is left out (`QueryId.ofQuery_eq_iff`). So two queries can share an id only where two texts
have one digest as far as an id keeps it (`Sha256.Collides`).

The text of a JSON value determines the value, whatever quotes, separators and brackets stand in
its strings, so what is left to see is that a query is read off its value: the names of methods
and modes are distinct, a whole number is no string, and nothing is no object.
-/

namespace LiveQuery

/-! ## The value of a query -/

theorem Method.name_inj {m n : Method} (heq : m.name = n.name) : m = n := by
  cases m <;> cases n <;> first | rfl | exact absurd heq (by decide)

theorem RealtimeMode.name_inj {m n : RealtimeMode} (heq : m.name = n.name) : m = n := by
  cases m <;> cases n <;> first | rfl | exact absurd heq (by decide)

theorem FetchPolicy.name_inj {p q : FetchPolicy} (heq : p.name = q.name) : p = q := by
  cases p <;> cases q <;> first | rfl | exact absurd heq (by decide)

theorem ItemId.toJson_inj {i j : ItemId} (heq : i.toJson = j.toJson) : i = j := by
  cases i with
  | int m =>
    cases j with
    | int n => exact congrArg ItemId.int (Number.int.inj (Json.number.inj heq))
    | str t => cases heq
  | str s =>
    cases j with
    | int n => cases heq
    | str t => exact congrArg ItemId.str (Json.string.inj heq)

theorem ItemId.toJson_ne_null (i : ItemId) : i.toJson ≠ .null := by
  cases i <;> exact fun h => nomatch h

theorem Json.ofOption_inj {α : Type} {toJson : α → Json} (hnull : ∀ a, toJson a ≠ .null)
    (hinj : ∀ a b, toJson a = toJson b → a = b) {o p : Option α}
    (heq : Json.ofOption toJson o = Json.ofOption toJson p) : o = p := by
  cases o with
  | none =>
    cases p with
    | none => rfl
    | some b => exact absurd heq.symm (hnull b)
  | some a =>
    cases p with
    | none => exact absurd heq (hnull a)
    | some b => exact congrArg some (hinj a b heq)

theorem Descriptor.toJson_inj {d e : Descriptor} (heq : d.toJson = e.toJson) : d = e := by
  obtain ⟨service, method, resourceId, params⟩ := d
  obtain ⟨service', method', resourceId', params'⟩ := e
  simp only [Descriptor.toJson, Json.object.injEq, List.cons.injEq, Prod.mk.injEq, true_and,
    Json.string.injEq, and_true] at heq
  obtain ⟨hmethod, hparams, hresource, rfl⟩ := heq
  obtain rfl := Method.name_inj hmethod
  have hobject : ∀ ms, Json.object ms ≠ .null := fun ms h => nomatch h
  obtain rfl := Json.ofOption_inj hobject (fun ms ns => Json.object.inj) hparams
  obtain rfl := Json.ofOption_inj ItemId.toJson_ne_null (fun i j => ItemId.toJson_inj) hresource
  rfl

/-- Two configurations keep a query in the same way. Nothing is said of their matchers. -/
structure Config.Agrees (c k : Config) : Prop where
  skip : c.skip = k.skip
  realtime : c.realtime = k.realtime
  fetchPolicy : c.fetchPolicy = k.fetchPolicy
  allPages : c.allPages = k.allPages

theorem Config.toJson_eq_iff {c k : Config} : c.toJson = k.toJson ↔ c.Agrees k := by
  constructor
  · intro heq
    simp only [Config.toJson, Json.object.injEq, List.cons.injEq, Prod.mk.injEq, true_and,
      Json.string.injEq, Json.bool.injEq, and_true] at heq
    obtain ⟨hpages, hpolicy, hmode, hskip⟩ := heq
    exact ⟨hskip, RealtimeMode.name_inj hmode, FetchPolicy.name_inj hpolicy, hpages⟩
  · rintro ⟨hskip, hmode, hpolicy, hpages⟩
    unfold Config.toJson
    rw [hskip, hmode, hpolicy, hpages]

variable (d e : Descriptor) (c k : Config)

theorem identityText_eq_iff :
    identityText d c = identityText e k ↔ d = e ∧ c.Agrees k := by
  constructor
  · intro heq
    have hvalue := Json.text_inj heq
    simp only [Json.object.injEq, List.cons.injEq, Prod.mk.injEq, true_and, and_true] at hvalue
    exact ⟨Descriptor.toJson_inj hvalue.2, Config.toJson_eq_iff.mp hvalue.1⟩
  · rintro ⟨rfl, hagrees⟩
    unfold identityText
    rw [Config.toJson_eq_iff.mpr hagrees]

/-! ## The digest of a text -/

namespace Sha256

theorem digitChar_inj : ∀ m < 16, ∀ n < 16, Nat.digitChar m = Nat.digitChar n → m = n := by
  decide

theorem hex_inj {as bs : List UInt8} (heq : hex as = hex bs) : as = bs := by
  induction as generalizing bs with
  | nil =>
    cases bs with
    | nil => rfl
    | cons b bs => cases heq
  | cons a as ih =>
    cases bs with
    | nil => cases heq
    | cons b bs =>
      simp only [hex, List.flatMap_cons, List.cons_append, List.nil_append, List.cons.injEq] at heq
      obtain ⟨hhigh, hlow, hrest⟩ := heq
      have ha := a.toNat_lt
      have hb := b.toNat_lt
      have hhigh := digitChar_inj _ (by omega) _ (by omega) hhigh
      have hlow := digitChar_inj _ (by omega) _ (by omega) hlow
      have hbyte : a = b := UInt8.toNat_inj.mp (by omega)
      rw [hbyte, ih hrest]

/-- Two messages that differ have the same first bytes of their digests. -/
structure Collides (kept : Nat) (m n : List UInt8) : Prop where
  distinct : m ≠ n
  digest : (Sha256.digest m).take kept = (Sha256.digest n).take kept

end Sha256

theorem toList_loop (bs : ByteArray) (i : Nat) (done : List UInt8) :
    ByteArray.toList.loop bs i done = done.reverse ++ bs.data.toList.drop i := by
  fun_induction ByteArray.toList.loop bs i done with
  | case1 i done more ih =>
    have hget : bs.get! i = bs.data.toList.get ⟨i, more⟩ := getElem!_pos bs.data i more
    have hdrop : bs.data.toList.drop i = bs.get! i :: bs.data.toList.drop (i + 1) := by
      rw [hget]
      exact List.drop_eq_getElem_cons more
    rw [ih, hdrop, List.reverse_cons, List.append_assoc, List.singleton_append]
  | case2 i done last =>
    rw [List.drop_of_length_le (Nat.le_of_not_lt last), List.append_nil]

theorem utf8_inj {s t : String} (heq : s.toUTF8.toList = t.toUTF8.toList) : s = t := by
  unfold ByteArray.toList at heq
  rw [toList_loop, toList_loop] at heq
  exact String.toByteArray_inj.mp (ByteArray.ext (Array.toList_inj.mp heq))

section

variable (d e : Descriptor) (c k : Config)

/-- The message from whose digest the id of a query is drawn. -/
def identityBytes : List UInt8 := (identityText d c).toUTF8.toList

theorem identityBytes_eq_iff :
    identityBytes d c = identityBytes e k ↔ identityText d c = identityText e k :=
  ⟨utf8_inj, fun heq => congrArg (fun text => text.toUTF8.toList) heq⟩

theorem QueryId.ofQuery_eq (d : Descriptor) (c : Config) :
    QueryId.ofQuery d c =
      ⟨"q/" ++ String.ofList (Sha256.hex ((Sha256.digest (identityBytes d c)).take keptBytes))⟩ :=
  rfl

/-- Ids are equal as far as the digests are that they keep. -/
theorem QueryId.ofQuery_eq_iff_digest :
    QueryId.ofQuery d c = QueryId.ofQuery e k ↔
      (Sha256.digest (identityBytes d c)).take QueryId.keptBytes =
        (Sha256.digest (identityBytes e k)).take QueryId.keptBytes := by
  rw [QueryId.ofQuery_eq, QueryId.ofQuery_eq]
  constructor
  · intro heq
    have htext := (String.append_right_inj "q/").mp (QueryId.mk.inj heq)
    exact Sha256.hex_inj (String.ofList_injective htext)
  · intro heq
    rw [heq]

/-- **An identity text stands for one query.** Equal texts come from equal descriptors and from
configurations that differ in nothing but their matchers, and an id stands for one query too
unless the digests of two texts collide. -/
theorem QueryId.ofQuery_eq_iff :
    (identityText d c = identityText e k ↔ d = e ∧ c.Agrees k) ∧
    (QueryId.ofQuery d c = QueryId.ofQuery e k ↔
      (d = e ∧ c.Agrees k) ∨
        Sha256.Collides QueryId.keptBytes (identityBytes d c) (identityBytes e k)) := by
  refine ⟨identityText_eq_iff d e c k, ?_⟩
  rw [QueryId.ofQuery_eq_iff_digest, ← identityText_eq_iff]
  constructor
  · intro hdigest
    by_cases htext : identityText d c = identityText e k
    · exact .inl htext
    · exact .inr ⟨fun hbytes => htext ((identityBytes_eq_iff d e c k).mp hbytes), hdigest⟩
  · rintro (htext | hcollides)
    · rw [(identityBytes_eq_iff d e c k).mpr htext]
    · exact hcollides.digest

end

namespace Notes

def gettingNote (id : ItemId) : Descriptor where
  service := "notes"
  method := .get
  resourceId := some id
  params := none

/-- A note is got by the number seven or by the text `7`, and these are two queries, while a
matcher of its own makes no second query of one. -/
theorem number_seven_is_no_text :
    identityText (gettingNote (.int 7)) {} ≠ identityText (gettingNote (.str "7")) {} ∧
    QueryId.ofQuery (gettingNote (.int 7)) { matcher := some Matcher.nothing } =
      QueryId.ofQuery (gettingNote (.int 7)) {} := by
  constructor
  · intro heq
    obtain ⟨hsame, -⟩ := (QueryId.ofQuery_eq_iff _ _ _ _).1.mp heq
    have hid : some (ItemId.int 7) = some (ItemId.str "7") := congrArg Descriptor.resourceId hsame
    exact absurd hid (by decide)
  · exact (QueryId.ofQuery_eq_iff _ _ _ _).2.mpr (.inl ⟨rfl, ⟨rfl, rfl, rfl, rfl⟩⟩)

end Notes

end LiveQuery
