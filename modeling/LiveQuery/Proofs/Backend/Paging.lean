import LiveQuery.Backend
import Mathlib.Data.List.Basic
import LiveQuery.Proofs.Query.Combinators

/-!
# A list fetched page by page is the whole list

A pager adds up the items that it gets and asks for what comes after them. Whatever the answers are,
it takes pages in up to the first that is the last one (`Pager.walk_script`): each request differs
from the first in its `$skip` alone, which is moved past the items taken in so far, and the outcome
is what the pages make up. If a server always answers from the same items, with at most so many at a
time, the pages follow each other without gaps and end with the last item (`Pager.walk_stable`). The
two make up `Pager.fetches_whole_list`. A backend in memory is such a server, so that all its pages
together are what it would bring at once (`Backend.findAll_eq`).
-/

namespace LiveQuery

/-- The total that a page reports, if that is a whole number. -/
def Page.total? (page : Page) : Option Nat :=
  (Fields.get? page.metadata "total").bind Json.nat64?

/-- Is a page the last one, if so many items come before its own? It is if it is empty, reports no
total, or reaches the total that it reports. -/
def Page.Ends (page : Page) (before : Nat) : Prop :=
  page.items = [] ∨ ∀ total, page.total? = some total → total ≤ before + page.items.length

namespace Pager

/-- The filter that params carry. What is missing or no object counts as empty. -/
def queryOf (params : Option Fields) : Fields :=
  ((Fields.get? (params.getD []) "query").bind Json.members?).getD []

/-- The items that params pass over. What is no whole number counts as none. -/
def skipOf (params : Option Fields) : Nat :=
  ((Fields.get? (queryOf params) "$skip").bind Json.nat64?).getD 0

def withSkip (params : Option Fields) (skip : Nat) : Fields :=
  Fields.insert (params.getD []) "query"
    (.object (Fields.insert (queryOf params) "$skip" (Json.int skip)))

def itemCount (pages : List Page) : Nat := (pages.flatMap Page.items).length

/-- Items as a list of their own: the total, if there is one, is the number of the items. -/
def listing (items : List Json) (metadata : Fields) : Page where
  items
  metadata :=
    if Fields.contains metadata "total" then
      Fields.insert metadata "total" (Json.int items.length)
    else metadata

/-- The list that pages make up: all items in order, with the metadata of the first page. -/
def gather (pages : List Page) : Page :=
  listing (pages.flatMap Page.items) ((pages.head?.map Page.metadata).getD [])

variable {σ : Type} {answer : σ → Fields → σ × Except Failure Page} {b b' : σ}
variable {params : Option Fields} {p : Pager} {page : Page} {fuel : Nat}

/-! ## One request -/

/-- Has a pager been begun with the given params? -/
structure Begun (params : Option Fields) (p : Pager) : Prop where
  carries : p.params = params.getD []
  filters : p.query = queryOf params

theorem begun_start : (start params).Begun params := ⟨rfl, rfl⟩

theorem Begun.take (h : p.Begun params) (page : Page) : (p.take page).Begun params :=
  ⟨h.carries, h.filters⟩

theorem Begun.request (h : p.Begun params) : p.request = withSkip params p.skip := by
  rw [Pager.request, h.carries, h.filters, withSkip]

theorem isLast_iff : p.isLast page = true ↔ page.Ends p.skip := by
  rw [isLast, Bool.or_eq_true, List.isEmpty_iff, Page.Ends, Page.total?]
  refine or_congr_right ?_
  cases (Fields.get? page.metadata "total").bind Json.nat64? <;> simp

theorem walk_of_error {failure : Failure} (answers : answer b p.request = (b', .error failure)) :
    walk answer (fuel + 1) b p =
      { requests := [p.request], outcome := some (.error failure) } := by
  simp only [walk, answers]

theorem walk_of_ends (answers : answer b p.request = (b', .ok page)) (ends : page.Ends p.skip) :
    walk answer (fuel + 1) b p =
      { requests := [p.request], outcome := some (.ok (p.take page).result) } := by
  simp only [walk, answers, if_pos (isLast_iff.mpr ends)]

theorem walk_of_more (answers : answer b p.request = (b', .ok page)) (more : ¬page.Ends p.skip) :
    walk answer (fuel + 1) b p =
      { walk answer fuel b' (p.take page) with
        requests := p.request :: (walk answer fuel b' (p.take page)).requests } := by
  simp only [walk, answers, if_neg (more ∘ isLast_iff.mp)]

theorem result_take : (p.take page).result =
    listing (p.collected ++ page.items) (p.metadata.getD page.metadata) := rfl

theorem foldl_take (p : Pager) (pages : List Page) :
    pages.foldl take p =
      { p with
        skip := p.skip + itemCount pages
        collected := p.collected ++ pages.flatMap Page.items
        metadata := p.metadata.or (pages.head?.map Page.metadata) } := by
  induction pages generalizing p with
  | nil => simp [itemCount]
  | cons page pages ih =>
    rw [List.foldl_cons, ih]
    cases hm : p.metadata <;> simp [take, itemCount, hm, Nat.add_assoc]

theorem result_start (params : Option Fields) (pages : List Page) :
    (pages.foldl take (start params)).result = gather pages := by
  rw [foldl_take]
  rfl

/-! ## Any answers -/

/-- A server that gives the answers of a script one after the other, whatever it is asked, and empty
pages once the script is used up. -/
def playback : List (Except Failure Page) → Fields →
    List (Except Failure Page) × Except Failure Page
  | [], _ => ([], .ok {})
  | reply :: script, _ => (script, reply)

/-- Do pages that come after so many items go on, so that none of them is the last one? -/
def GoOn (skip : Nat) (pages : List Page) : Prop :=
  ∀ before page after, pages = before ++ page :: after → ¬page.Ends (skip + itemCount before)

theorem GoOn.of_cons {skip : Nat} {pages : List Page} (h : GoOn skip (page :: pages)) :
    ¬page.Ends skip ∧ GoOn (skip + page.items.length) pages := by
  refine ⟨h [] page pages rfl, fun before next after hsplit => ?_⟩
  have hnext := h (page :: before) next after (by rw [hsplit]; rfl)
  rwa [itemCount, List.flatMap_cons, List.length_append, ← Nat.add_assoc] at hnext

/-- The pager takes pages in up to the first that is the last one, or up to a failure. -/
theorem walk_script (h : p.Begun params) {early : List Page} {reply : Except Failure Page}
    (rest : List (Except Failure Page)) (goOn : GoOn p.skip early)
    (ends : ∀ last, reply = .ok last → last.Ends (p.skip + itemCount early))
    (enough : early.length < fuel) :
    walk playback fuel (early.map .ok ++ reply :: rest) p =
      { requests := (List.range (early.length + 1)).map fun i =>
          withSkip params (p.skip + itemCount (early.take i))
        outcome := some (reply.map fun last => ((early ++ [last]).foldl take p).result) } := by
  induction early generalizing p fuel with
  | nil =>
    obtain ⟨fuel, rfl⟩ := Nat.exists_eq_succ_of_ne_zero (Nat.ne_of_gt enough)
    have hanswer : playback (reply :: rest) p.request = (rest, reply) := rfl
    cases reply with
    | error failure =>
      rw [List.map_nil, List.nil_append, walk_of_error hanswer, h.request]
      rfl
    | ok last =>
      rw [List.map_nil, List.nil_append, walk_of_ends hanswer (ends last rfl), h.request]
      rfl
  | cons page early ih =>
    obtain ⟨fuel, rfl⟩ := Nat.exists_eq_succ_of_ne_zero (Nat.ne_of_gt (Nat.zero_lt_of_lt enough))
    obtain ⟨hmore, hgoOn⟩ := goOn.of_cons
    have hcount : ∀ pages : List Page, p.skip + itemCount (page :: pages) =
        (p.take page).skip + itemCount pages := fun pages => by
      rw [itemCount, List.flatMap_cons, List.length_append, ← Nat.add_assoc]
      rfl
    have hanswer : playback ((page :: early).map .ok ++ reply :: rest) p.request =
        (early.map .ok ++ reply :: rest, .ok page) := rfl
    rw [walk_of_more hanswer hmore,
      ih (h.take page) hgoOn (fun last hlast => hcount early ▸ ends last hlast)
        (Nat.lt_of_succ_lt_succ enough), h.request, List.length_cons]
    simp only [List.range_succ_eq_map, List.map_cons, List.map_map, Function.comp_def,
      List.take_succ_cons, hcount]
    rfl

/-! ## A server that does not change -/

/-- A server that answers requests for a list from the same items as long as it is steady: those
that it accepts, from `$skip` on, so many of them at most, and with the number of all that it
accepts as the total. -/
structure Serves (answer : σ → Fields → σ × Except Failure Page) (steady : σ → Prop)
    (params : Option Fields) (accepted : List Json) (size : Nat) : Prop where
  stays : ∀ b, steady b → ∀ request, steady (answer b request).1
  answers : ∀ b, steady b → ∀ skip, skip < 0x10000000000000000 → ∃ page,
    (answer b (withSkip params skip)).2 = .ok page ∧
      page.items = (accepted.drop skip).take size ∧ page.total? = some accepted.length

/-- How many requests it takes to fetch what remains of a list; one is made even if nothing does. -/
def requestCount (remaining size : Nat) : Nat := max 1 ((remaining + size - 1) / size)

theorem requestCount_of_le {remaining size : Nat} (pos : 0 < size) (h : remaining ≤ size) :
    requestCount remaining size = 1 := by
  refine Nat.max_eq_left (Nat.le_of_lt_succ (Nat.div_lt_of_lt_mul ?_))
  omega

theorem requestCount_of_lt {remaining size : Nat} (pos : 0 < size) (h : size < remaining) :
    requestCount remaining size = requestCount (remaining - size) size + 1 := by
  have hmore : (remaining + size - 1) / size = (remaining - size + size - 1) / size + 1 := by
    rw [← Nat.add_div_right _ pos]
    congr 1
    omega
  have hsome : 1 ≤ (remaining - size + size - 1) / size := by
    rw [Nat.one_le_div_iff pos]
    omega
  rw [requestCount, requestCount, hmore, Nat.max_eq_right hsome]
  exact Nat.max_eq_right (Nat.le_add_left 1 _)

theorem requestCount_le (remaining : Nat) {size : Nat} (pos : 0 < size) :
    requestCount remaining size ≤ remaining + 1 := by
  refine Nat.max_le.mpr ⟨Nat.le_add_left 1 _, Nat.le_of_lt (Nat.div_lt_of_lt_mul ?_)⟩
  have hle : remaining ≤ size * remaining := Nat.le_mul_of_pos_left _ pos
  rw [Nat.mul_succ]
  omega

theorem nat64?_int {n : Nat} (small : n < 0x10000000000000000) :
    Json.nat64? (Json.int n) = some n := by
  have hrange : (0 : Int) ≤ n ∧ (n : Int) < 0x10000000000000000 := by omega
  simp only [Json.int, Json.nat64?, if_pos hrange, Int.toNat_natCast]

theorem nat64?_lt {value? : Option Json} {n : Nat} (h : value?.bind Json.nat64? = some n) :
    n < 0x10000000000000000 := by
  obtain ⟨value, -, hvalue⟩ := Option.bind_eq_some_iff.mp h
  unfold Json.nat64? at hvalue
  split at hvalue
  · split at hvalue
    · cases hvalue
      omega
    · cases hvalue
  · cases hvalue

theorem skipOf_lt (params : Option Fields) : skipOf params < 0x10000000000000000 := by
  unfold skipOf
  cases h : (Fields.get? (queryOf params) "$skip").bind Json.nat64? with
  | none => exact Nat.zero_lt_succ _
  | some skip => exact nat64?_lt h

/-- From wherever the pager has come to, it takes in what is left of the items. -/
theorem walk_stable {steady : σ → Prop} {accepted : List Json} {size : Nat}
    (serves : Serves answer steady params accepted size) (pos : 0 < size) (h : p.Begun params)
    (skipped : p.skip < 0x10000000000000000)
    (enough : requestCount (accepted.length - p.skip) size ≤ fuel) (holds : steady b) :
    ∃ page, (answer b (withSkip params p.skip)).2 = .ok page ∧
      page.total? = some accepted.length ∧
      walk answer fuel b p =
        { requests := (List.range (requestCount (accepted.length - p.skip) size)).map fun i =>
            withSkip params (p.skip + i * size)
          outcome := some (.ok (listing (p.collected ++ accepted.drop p.skip)
            (p.metadata.getD page.metadata))) } := by
  induction fuel generalizing p b with
  | zero => exact absurd (Nat.le_trans (Nat.le_max_left 1 _) enough) (Nat.not_succ_le_zero 0)
  | succ fuel ih =>
    obtain ⟨page, hanswer, hitems, htotal⟩ := serves.answers b holds p.skip skipped
    have hreply : answer b p.request = ((answer b p.request).1, .ok page) := by
      rw [← hanswer, ← h.request]
    refine ⟨page, hanswer, htotal, ?_⟩
    have hsmall : accepted.length < 0x10000000000000000 := nat64?_lt htotal
    have hlength : page.items.length = min size (accepted.length - p.skip) := by
      rw [hitems, List.length_take, List.length_drop]
    by_cases hlast : accepted.length - p.skip ≤ size
    · have hall : page.items = accepted.drop p.skip := by
        rw [hitems, List.take_of_length_le (by rwa [List.length_drop])]
      have hends : page.Ends p.skip := by
        refine Or.inr fun total hreported => ?_
        obtain rfl := Option.some.inj (htotal.symm.trans hreported)
        omega
      rw [walk_of_ends hreply hends, requestCount_of_le pos hlast, h.request, result_take, hall]
      simp
    · have hlt : size < accepted.length - p.skip := Nat.lt_of_not_le hlast
      have hmore : ¬page.Ends p.skip := by
        rintro (hempty | hreached)
        · rw [hempty, List.length_nil] at hlength
          omega
        · have hle := hreached _ htotal
          omega
      have hskip : (p.take page).skip = p.skip + size := by
        change p.skip + page.items.length = p.skip + size
        omega
      have hcollected : (p.take page).collected ++ accepted.drop (p.skip + size) =
          p.collected ++ accepted.drop p.skip := by
        rw [take, hitems, List.append_assoc, ← List.drop_drop, List.take_append_drop]
      have hremaining : accepted.length - (p.skip + size) = accepted.length - p.skip - size := by
        omega
      have hcount := requestCount_of_lt pos hlt
      obtain ⟨next, -, -, hwalk⟩ := ih (h.take page) (by omega)
        (by rw [hskip, hremaining]; omega) (serves.stays b holds p.request)
      rw [walk_of_more hreply hmore, hwalk, hskip, hremaining, hcount, hcollected,
        List.range_succ_eq_map, h.request]
      simp only [List.map_cons, List.map_map, Function.comp_def, Nat.zero_mul, Nat.add_zero,
        Nat.succ_mul, Nat.add_assoc, Nat.add_comm size]
      rfl

/-- A list that a steady server has in parts is fetched whole: the pager makes as many requests as
there are parts, each moved on by a part, and hands over all that is accepted from the first `$skip`
on, with its number as the total in what the first page says. From a server that answers anything,
the pager takes pages in up to the first that is the last one, and ends with what these make up, or
with the failure that comes before. -/
theorem fetches_whole_list (params : Option Fields) :
    (∀ (σ : Type) (answer : σ → Fields → σ × Except Failure Page) (steady : σ → Prop)
      (accepted : List Json) (size : Nat), Serves answer steady params accepted size →
      0 < size → ∀ b, steady b → ∀ fuel,
      requestCount (accepted.length - skipOf params) size ≤ fuel →
      ∃ first, (answer b (withSkip params (skipOf params))).2 = .ok first ∧
        walk answer fuel b (start params) =
          { requests := (List.range (requestCount (accepted.length - skipOf params) size)).map
              fun i => withSkip params (skipOf params + i * size)
            outcome := some (.ok
              { items := accepted.drop (skipOf params)
                metadata := Fields.insert first.metadata "total"
                  (Json.int (accepted.drop (skipOf params)).length) }) }) ∧
    ∀ (early : List Page) (reply : Except Failure Page) (rest : List (Except Failure Page)),
      GoOn (skipOf params) early →
      (∀ last, reply = .ok last → last.Ends (skipOf params + itemCount early)) → ∀ fuel,
      early.length < fuel →
      walk playback fuel (early.map .ok ++ reply :: rest) (start params) =
        { requests := (List.range (early.length + 1)).map fun i =>
            withSkip params (skipOf params + itemCount (early.take i))
          outcome := some (reply.map fun last => gather (early ++ [last])) } := by
  refine ⟨fun σ answer steady accepted size serves pos b holds fuel enough => ?_,
    fun early reply rest goOn ends fuel enough => ?_⟩
  · obtain ⟨first, hfirst, htotal, hwalk⟩ :=
      walk_stable serves pos begun_start (skipOf_lt params) enough holds
    have hcontains : Fields.contains first.metadata "total" = true := by
      obtain ⟨total, hget, -⟩ := Option.bind_eq_some_iff.mp htotal
      rw [Fields.contains, hget]
      rfl
    refine ⟨first, hfirst, hwalk.trans ?_⟩
    simp only [listing, start, List.nil_append, Option.getD_none, hcontains, if_true]
    rfl
  · rw [walk_script begun_start rest goOn ends enough]
    simp only [result_start]
    rfl

end Pager

/-! ## A backend in memory -/

namespace Filter

theorem allHold_insert {name : String} (shaping : name ∈ shapingNames) (value : Json)
    (members : Fields) (item : Json) :
    allHold (Fields.insert members name value) item = allHold members item := by
  induction members with
  | nil => simp [Fields.insert, allHold, memberHolds_of_shaping shaping]
  | cons member members ih =>
    obtain ⟨key, condition⟩ := member
    simp only [Fields.insert]
    split
    · next hkey =>
      subst hkey
      simp [allHold, memberHolds_of_shaping shaping]
    · split
      · simp [allHold, memberHolds_of_shaping shaping]
      · simp [allHold, ih]

end Filter

namespace Backend

open Pager (requestCount queryOf skipOf withSkip)

variable {b : Backend} {service : String} {params : Option Fields} {items : List Json} {size : Nat}

def accepted (items : List Json) (params : Option Fields) : List Json :=
  items.filter (Filter.accepts (some (.object (queryOf params))))

theorem serves (unscripted : b.scripted? service "find" = none)
    (known : b.services.get? service = some items) (small : items.length < 0x10000000000000000)
    (limit : ((Fields.get? (queryOf params) "$limit").bind Json.nat64?).or b.pageSize =
      some size) :
    Pager.Serves (fun b request => b.find service (some request)) (· = b) params
      (accepted items params) size where
  stays := by
    rintro _ rfl request
    simp only [find, unscripted]
  answers := by
    rintro _ rfl skip skipped
    have hshaping : "$skip" ∈ Filter.shapingNames := by simp [Filter.shapingNames]
    have haccepts : Filter.accepts (some (.object
        (Fields.insert (queryOf params) "$skip" (Json.int skip)))) =
        Filter.accepts (some (.object (queryOf params))) := by
      funext item
      simp only [Filter.accepts, Filter.allHold_insert hshaping]
    have hquery : Fields.get? (withSkip params skip) "query" =
        some (.object (Fields.insert (queryOf params) "$skip" (Json.int skip))) := by
      rw [withSkip, Fields.get?_insert, if_pos rfl]
    have hskip : (Fields.get? (Fields.insert (queryOf params) "$skip" (Json.int skip))
        "$skip").bind Json.nat64? = some skip := by
      rw [Fields.get?_insert, if_pos rfl, Option.bind_some, Pager.nat64?_int skipped]
    have hlimit : Fields.get? (Fields.insert (queryOf params) "$skip" (Json.int skip)) "$limit" =
        Fields.get? (queryOf params) "$limit" := by
      rw [Fields.get?_insert, if_neg (by simp)]
    have hlength : (accepted items params).length < 0x10000000000000000 :=
      Nat.lt_of_le_of_lt (List.length_filter_le _ _) small
    have htotal : Fields.get?
        [("skip", Json.int skip), ("total", Json.int (accepted items params).length)] "total" =
          some (Json.int (accepted items params).length) := by
      simp [Fields.get?]
    refine ⟨⟨((accepted items params).drop skip).take size,
      [("skip", Json.int skip), ("total", Json.int (accepted items params).length)]⟩, ?_, rfl,
      by rw [Page.total?, htotal, Option.bind_some, Pager.nat64?_int hlength]⟩
    unfold find
    rw [unscripted]
    simp only [items?, known, Option.bind_some, hquery, Json.get?, hskip, hlimit, haccepts, limit,
      Option.getD_some, Option.map_some]
    rfl

theorem findAll_eq (unscripted : b.scripted? service "find" = none)
    (known : b.services.get? service = some items)
    (limit : ((Fields.get? (queryOf params) "$limit").bind Json.nat64?).or b.pageSize = some size)
    (pos : 0 < size) (small : items.length < 0x10000000000000000) :
    ∃ first, (b.find service (some (withSkip params (skipOf params)))).2 = .ok first ∧
      b.findAll service params =
        { requests := (List.range (requestCount ((accepted items params).length - skipOf params)
            size)).map fun i => withSkip params (skipOf params + i * size)
          outcome := some (.ok (Pager.listing ((accepted items params).drop (skipOf params))
            first.metadata)) } := by
  have hlength : (accepted items params).length ≤ items.length := List.length_filter_le _ _
  have henough : requestCount ((accepted items params).length - (Pager.start params).skip) size ≤
      ((b.responses.get? (service, "find")).getD []).length +
        ((b.services.get? service).getD []).length + 2 := by
    refine Nat.le_trans (Pager.requestCount_le _ pos) ?_
    rw [known, Option.getD_some]
    omega
  obtain ⟨first, hfirst, -, hwalk⟩ := Pager.walk_stable (serves unscripted known small limit)
    pos Pager.begun_start (Pager.skipOf_lt params) henough rfl
  exact ⟨first, hfirst, hwalk⟩

end Backend

namespace Notes

def jot (id : Int) : Json := .object [("id", .int id), ("tag", .string "idea")]

/-- A backend that hands out its five notes two at a time. -/
def jotter : Backend where
  services := (∅ : Table String (List Json)).insert "notes" ([1, 2, 3, 4, 5].map jot)
  pageSize := some 2

/-- The notes come whole in three parts. If there are no more than one note and then a failure, the
failure is what comes. -/
theorem five_notes_in_parts :
    (∃ first, Pager.walk (fun b request => b.find "notes" (some request)) 3 jotter
        (Pager.start none) =
      { requests := [Pager.withSkip none 0, Pager.withSkip none 2, Pager.withSkip none 4]
        outcome := some (.ok
          { items := [1, 2, 3, 4, 5].map jot
            metadata := Fields.insert (Page.metadata first) "total" (Json.int 5) }) }) ∧
    Pager.walk Pager.playback 2
        [.ok ⟨[jot 1], [("total", .int 2)]⟩, .error (.transport "down")] (Pager.start none) =
      { requests := [Pager.withSkip none 0, Pager.withSkip none 1]
        outcome := some (.error (.transport "down")) } := by
  obtain ⟨hserver, hscript⟩ := Pager.fetches_whole_list none
  have hserves : Pager.Serves (fun b request => b.find "notes" (some request)) (· = jotter) none
      (Backend.accepted ([1, 2, 3, 4, 5].map jot) none) 2 := Backend.serves rfl rfl (by decide) rfl
  have haccepted : Backend.accepted ([1, 2, 3, 4, 5].map jot) none =
      [1, 2, 3, 4, 5].map jot := by
    refine List.filter_eq_self.mpr fun item _ => ?_
    rw [show Pager.queryOf none = [] from rfl, Filter.accepts, Filter.allHold]
  rw [haccepted] at hserves
  obtain ⟨first, -, hwalk⟩ := hserver Backend _ _ _ 2 hserves (by decide) jotter rfl 3 (by decide)
  have hgoOn : Pager.GoOn 0 [⟨[jot 1], [("total", .int 2)]⟩] := by
    intro before page after hsplit
    cases before with
    | nil =>
      cases hsplit
      rintro (hempty | hreached)
      · cases hempty
      · exact absurd (hreached 2 rfl) (by decide)
    | cons other before =>
      simp at hsplit
  exact ⟨⟨first, hwalk⟩, hscript [⟨[jot 1], [("total", .int 2)]⟩]
    (.error (.transport "down")) [] hgoOn (fun _ h => by cases h) 2 (by decide)⟩

end Notes

end LiveQuery
