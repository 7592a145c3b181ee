import LiveQuery.Proofs.Service.Mirror
import LiveQuery.Store.World
import Mathlib.Algebra.Order.Group.Multiset
import Mathlib.Logic.Function.Basic

/-!
# Moves of the cache

Of all that a world holds, fetches and events concern four things only: the cached state
of every service, where each query lives, the next epoch, and the fetches that have begun
and have not been answered. `Cache` is this view of a world, and `Cache.Step` says once
what can happen to it: a query comes to life, a fetch begins or is put off, is answered
for the life that began it or for none, changes are merged, a query ends.

`Lives` is what holds of the lives themselves: each query lives in one service, the one
its descriptor names, and an outstanding fetch can be answered only for the life that
began it.
-/

namespace LiveQuery

/-- The view of a world that fetches and events concern. -/
structure Cache where
  service : String → Service
  home? : QueryId → Option String
  nextEpoch : Nat
  /-- The fetches that have begun and have not been answered. -/
  outstanding : Multiset Request

/-- What can happen to the cache. -/
inductive Move where
  | born (ref : QueryRef)
  | begun (request : Request)
  | deferred (query : QueryId)
  | answered (request : Request) (answer : Except Failure (QueryData × Fields))
  | merged (service : String) (changes : List Change)
  | vacuumed (query : QueryId)

/-- The fetch that a query in a service asks for. -/
def Query.request (q : Query) (query : QueryId) (service : String) : Request where
  query
  epoch := q.epoch
  service
  method := q.descriptor.method
  resourceId := q.descriptor.resourceId
  params := q.descriptor.params
  allPages := q.config.allPages

/-- May a fetch of the query begin? A query that is skipped stays idle. -/
def Query.MayBegin (q : Query) : Prop :=
  q.pending = true ∨ q.config.skip = false ∨ q.state.status ≠ .idle

/-- Does the query want to be fetched again after the fetch under way? -/
def Query.marked (dirty : Bool) (q : Query) : Query := { q with dirty }

namespace Service

def mark (s : Service) (query : QueryId) (dirty : Bool) : Service :=
  { s with queries := s.queries.modify query (Query.marked dirty) }

def adopt (s : Service) (query : QueryId) (q : Query) : Service :=
  { s with queries := s.queries.insert query q }

end Service

namespace Cache

variable {setup : Setup} {c c' : Cache} {query : QueryId} {q : Query} {name : String}

def query? (c : Cache) (query : QueryId) : Option Query :=
  (c.home? query).bind fun home => (c.service home).queries.get? query

def set (c : Cache) (name : String) (s : Service) : Cache :=
  { c with service := Function.update c.service name s }

def adopt (c : Cache) (ref : QueryRef) (q : Query) : Cache :=
  { c.set ref.descriptor.service ((c.service ref.descriptor.service).adopt ref.id q) with
    home? := Function.update c.home? ref.id (some ref.descriptor.service)
    nextEpoch := c.nextEpoch + 1 }

def retire (c : Cache) (query : QueryId) (home : String) (s : Service) : Cache :=
  { c.set home s with home? := Function.update c.home? query none }

/-- Is a request from a life that still goes on? -/
def IsCurrent (c : Cache) (request : Request) : Prop :=
  ∃ q, (c.service request.service).queries.get? request.query = some q ∧
    q.epoch = request.epoch

/-- One move of the cache. -/
inductive Step (setup : Setup) : Cache → Move → Cache → Prop where
  | born {c : Cache} {ref : QueryRef} (new : c.query? ref.id = none) :
      Step setup c (.born ref) (c.adopt ref (Query.new ref.descriptor ref.config
        (Store.filterOf setup ref.descriptor ref.config) c.nextEpoch))
  | begun {c : Cache} {query : QueryId} {home : String} {q : Query}
      (lives : c.home? query = some home)
      (found : (c.service home).queries.get? query = some q)
      (free : q.inFlight = false) (due : q.MayBegin) :
      Step setup c (.begun (q.request query home))
        { c.set home ((c.service home).fetching query) with
          outstanding := q.request query home ::ₘ c.outstanding }
  | deferred {c : Cache} {query : QueryId} {home : String} {q : Query}
      (lives : c.home? query = some home)
      (found : (c.service home).queries.get? query = some q)
      (follows : q.config.skip = false) (busy : q.inFlight = true) :
      Step setup c (.deferred query) (c.set home ((c.service home).mark query true))
  | landed {c : Cache} {request : Request} {rest : Multiset Request}
      {answer : Except Failure (QueryData × Fields)}
      (asked : c.outstanding = request ::ₘ rest) (fits : request.fits answer = true)
      (current : c.IsCurrent request) :
      Step setup c (.answered request answer)
        { c.set request.service (((c.service request.service).land setup.conventions
            request.query answer).mark request.query false) with
          outstanding := rest }
  | dropped {c : Cache} {request : Request} {rest : Multiset Request}
      {answer : Except Failure (QueryData × Fields)}
      (asked : c.outstanding = request ::ₘ rest) (gone : ¬c.IsCurrent request) :
      Step setup c (.answered request answer) { c with outstanding := rest }
  | merged {c : Cache} {name : String} {changes : List Change} :
      Step setup c (.merged name changes)
        (c.set name ((c.service name).mergeAll setup.conventions changes).service)
  | vacuumed {c : Cache} {query : QueryId} {home : String} {s : Service}
      (lives : c.home? query = some home)
      (vacuum : (c.service home).vacuum? setup.conventions query = some s) :
      Step setup c (.vacuumed query) (c.retire query home s)

inductive Steps (setup : Setup) : Cache → List Move → Cache → Prop where
  | refl (c : Cache) : Steps setup c [] c
  | head {c c' c'' : Cache} {move : Move} {moves : List Move} :
      Step setup c move c' → Steps setup c' moves c'' → Steps setup c (move :: moves) c''

theorem Step.steps {move : Move} (h : Step setup c move c') :
    Steps setup c [move] c' :=
  .head h (.refl c')

theorem Steps.exists_of_append {moves more : List Move}
    (h : Steps setup c (moves ++ more) c') :
    ∃ mid, Steps setup c moves mid ∧ Steps setup mid more c' := by
  induction moves generalizing c with
  | nil => exact ⟨c, .refl c, h⟩
  | cons move moves ih =>
    cases h with
    | head step rest =>
      obtain ⟨mid, hmoves, hmore⟩ := ih rest
      exact ⟨mid, .head step hmoves, hmore⟩

theorem Steps.step_of_singleton {move : Move} (h : Steps setup c [move] c') :
    Step setup c move c' := by
  cases h with
  | head step rest =>
    cases rest
    exact step

theorem Steps.induction {P : Cache → Prop} {moves : List Move}
    (step : ∀ {c move c'}, move ∈ moves → P c → Step setup c move c' → P c')
    (h : Steps setup c moves c') (init : P c) : P c' := by
  induction h with
  | refl c => exact init
  | head hstep _ ih =>
    refine ih (fun hm => step (List.mem_cons_of_mem _ hm)) ?_
    exact step List.mem_cons_self init hstep

end Cache

/-! ## Lives -/

/-- What a query is for the whole of its life. -/
structure Life where
  descriptor : Descriptor
  config : Config
  accepts : Json → Bool
  epoch : Nat

namespace Query

def life (q : Query) : Life := ⟨q.descriptor, q.config, q.accepts, q.epoch⟩

theorem request_congr {p q : Query} (h : p.life = q.life) (query : QueryId) (name : String) :
    p.request query name = q.request query name := by
  simp only [life, Life.mk.injEq] at h
  simp only [request, h]

@[simp] theorem life_merge {conv : Conventions} {q : Query} {id : ItemId} {item : Json}
    {effect : Effect} : (q.merge conv id item effect).life = q.life := by
  simp [life]

@[simp] theorem life_answered {q : Query} {answer : Except Failure (QueryData × Fields)} :
    (q.answered answer).life = q.life := by
  cases answer <;> rfl

end Query

namespace Service

variable {conv : Conventions} {s s' : Service} {query : QueryId}

/-- Have all queries gone on living, and no others come to life? -/
def Keeps (s s' : Service) : Prop :=
  ∀ query, (s'.queries.get? query).map Query.life = (s.queries.get? query).map Query.life

theorem keeps_modify {f : Query → Query} (h : ∀ q, (f q).life = q.life) :
    s.Keeps { s with queries := s.queries.modify query f } := by
  intro x
  rw [Table.get?_modify]
  split
  · rw [Option.map_map]
    exact Option.map_congr fun q _ => h q
  · rfl

theorem keeps_land (answer : Except Failure (QueryData × Fields)) :
    s.Keeps (s.land conv query answer) := by
  intro x
  rw [get?_queries_land]
  split
  · rw [Option.map_map]
    exact Option.map_congr fun q _ => Query.life_answered
  · rfl

theorem Keeps.trans {s'' : Service} (h : s.Keeps s') (h' : s'.Keeps s'') : s.Keeps s'' :=
  fun x => (h' x).trans (h x)

theorem map_get?_mergeAll {α : Type} {f : Query → α}
    (h : ∀ q id item effect, f (q.merge conv id item effect) = f q) (changes : List Change)
    (x : QueryId) :
    ((s.mergeAll conv changes).service.queries.get? x).map f = (s.queries.get? x).map f := by
  refine mergeAll_induction (P := fun p => (p.queries.get? x).map f = _) rfl
    (fun p id change _ hp => ?_) changes
  rw [get?_queries_mergeChange, Option.map_map, ← hp]
  exact Option.map_congr fun q _ => h q id change.item _

theorem keeps_mergeAll (conv : Conventions) (s : Service) (changes : List Change) :
    s.Keeps (s.mergeAll conv changes).service :=
  map_get?_mergeAll (fun _ _ _ _ => Query.life_merge) changes

end Service

namespace Cache

variable {setup : Setup} {c c' : Cache} {query : QueryId} {q : Query} {name : String}

def find? (c : Cache) (name : String) (query : QueryId) : Option Query :=
  (c.service name).queries.get? query

theorem find?_set (s : Service) (n : String) (x : QueryId) :
    (c.set name s).find? n x = if n = name then s.queries.get? x else c.find? n x := by
  unfold find? set
  by_cases h : n = name
  · subst h
    simp
  · simp [h]

theorem find?_adopt {ref : QueryRef} {p : Query} :
    (c.adopt ref q).find? name query = some p ↔
      (name = ref.descriptor.service ∧ query = ref.id ∧ p = q) ∨
        ¬(name = ref.descriptor.service ∧ query = ref.id) ∧ c.find? name query = some p := by
  have hset : (c.adopt ref q).find? name query = _ := find?_set _ _ _
  rw [hset]
  by_cases hn : name = ref.descriptor.service
  · subst hn
    rw [if_pos rfl, Service.adopt, Table.get?_insert]
    by_cases hid : ref.id = query
    · subst hid
      simp [eq_comm]
    · simp [hid, Ne.symm hid, find?]
  · simp [hn]

theorem home?_adopt {ref : QueryRef} :
    (c.adopt ref q).home? query =
      if query = ref.id then some ref.descriptor.service else c.home? query :=
  Function.update_apply _ _ _ _

theorem home?_retire {s : Service} {x : QueryId} :
    (c.retire query name s).home? x = if x = query then none else c.home? x :=
  Function.update_apply _ _ _ _

/-- What holds of lives, epochs and requests. -/
structure Lives (c : Cache) : Prop where
  home : ∀ {name query q}, c.find? name query = some q → c.home? query = some name
  found : ∀ {name query}, c.home? query = some name → ∃ q, c.find? name query = some q
  named : ∀ {name query q}, c.find? name query = some q → q.descriptor.service = name
  epoch_lt : ∀ {name query q}, c.find? name query = some q → q.epoch < c.nextEpoch
  asked_lt : ∀ {request}, request ∈ c.outstanding → request.epoch < c.nextEpoch
  /-- A request of a life that goes on asks for what the life stands for. -/
  asked : ∀ {request name q}, request ∈ c.outstanding →
    c.find? name request.query = some q → q.epoch = request.epoch →
    request = q.request request.query name

namespace Lives

theorem name_eq {home : String} (h : c.Lives) (lives : c.home? query = some home)
    (hq : c.find? name query = some q) : name = home :=
  Option.some.inj ((h.home hq).symm.trans lives)

theorem query?_eq_some (h : c.Lives) :
    c.query? query = some q ↔ ∃ name, c.find? name query = some q := by
  unfold query?
  rw [Option.bind_eq_some_iff]
  constructor
  · rintro ⟨home, -, hq⟩
    exact ⟨home, hq⟩
  · rintro ⟨name, hq⟩
    exact ⟨name, h.home hq, hq⟩

theorem find?_eq_none (h : c.Lives) (new : c.query? query = none) :
    c.find? name query = none := by
  cases hq : c.find? name query with
  | none => rfl
  | some q =>
    rw [h.query?_eq_some.mpr ⟨name, hq⟩] at new
    cases new

theorem service_eq (h : c.Lives) {request : Request} (asked : request ∈ c.outstanding)
    (hq : c.find? name request.query = some q) (epoch : q.epoch = request.epoch) :
    request.service = name := by
  rw [h.asked asked hq epoch]
  rfl

theorem isCurrent (h : c.Lives) {request : Request} (asked : request ∈ c.outstanding)
    (hq : c.find? name request.query = some q) (epoch : q.epoch = request.epoch) :
    c.IsCurrent request := by
  have hname : request.service = name := h.service_eq asked hq epoch
  exact ⟨q, by rw [hname]; exact hq, epoch⟩

theorem of_keeps (h : c.Lives) (home : c'.home? = c.home?) (epoch : c'.nextEpoch = c.nextEpoch)
    (keeps : ∀ name, (c.service name).Keeps (c'.service name))
    (asked : ∀ request ∈ c'.outstanding, request ∈ c.outstanding ∨
      ∃ name q, c.find? name request.query = some q ∧
        request = q.request request.query name) : c'.Lives := by
  have before : ∀ {name query q}, c'.find? name query = some q →
      ∃ p, c.find? name query = some p ∧ p.life = q.life := by
    intro name query q hq
    have hk := keeps name query
    rw [show (c'.service name).queries.get? query = some q from hq, Option.map_some] at hk
    exact Option.map_eq_some_iff.mp hk.symm
  refine ⟨?_, ?_, ?_, ?_, ?_, ?_⟩
  · intro name query q hq
    obtain ⟨p, hp, -⟩ := before hq
    rw [home]
    exact h.home hp
  · intro name query hhome
    rw [home] at hhome
    obtain ⟨p, hp⟩ := h.found hhome
    have hk := keeps name query
    rw [show (c.service name).queries.get? query = some p from hp, Option.map_some] at hk
    obtain ⟨q, hq, -⟩ := Option.map_eq_some_iff.mp hk
    exact ⟨q, hq⟩
  · intro name query q hq
    obtain ⟨p, hp, hlife⟩ := before hq
    rw [← h.named hp]
    exact (congrArg (·.descriptor.service) hlife).symm
  · intro name query q hq
    obtain ⟨p, hp, hlife⟩ := before hq
    rw [epoch, ← show p.epoch = q.epoch from congrArg (·.epoch) hlife]
    exact h.epoch_lt hp
  · intro request hr
    rw [epoch]
    obtain hr | ⟨name, q, hq, he⟩ := asked request hr
    · exact h.asked_lt hr
    · rw [he]
      exact h.epoch_lt hq
  · intro request name q hr hq he
    obtain ⟨p, hp, hlife⟩ := before hq
    rw [← Query.request_congr hlife]
    obtain hr | ⟨name', p', hp', hrequest⟩ := asked request hr
    · refine h.asked hr hp ?_
      rw [← he]
      exact congrArg (·.epoch) hlife
    · have hname : name' = name := h.name_eq (h.home hp) hp'
      subst hname
      obtain rfl := Option.some.inj (hp'.symm.trans hp)
      exact hrequest

theorem adopt (h : c.Lives) {ref : QueryRef} (new : c.query? ref.id = none)
    (named : q.descriptor.service = ref.descriptor.service) (epoch : q.epoch = c.nextEpoch) :
    (c.adopt ref q).Lives := by
  have fresh : ∀ {name query p}, c.find? name query = some p → query ≠ ref.id := by
    rintro name query p hp rfl
    rw [h.query?_eq_some.mpr ⟨name, hp⟩] at new
    cases new
  refine ⟨?_, ?_, ?_, ?_, ?_, ?_⟩
  · intro name query p hp
    rw [home?_adopt]
    rcases find?_adopt.mp hp with ⟨rfl, rfl, -⟩ | ⟨-, hp⟩
    · exact if_pos rfl
    · rw [if_neg (fresh hp)]
      exact h.home hp
  · intro name query hhome
    rw [home?_adopt] at hhome
    split at hhome
    · next hid =>
      exact ⟨q, find?_adopt.mpr (Or.inl ⟨(Option.some.inj hhome).symm, hid, rfl⟩)⟩
    · next hid =>
      obtain ⟨p, hp⟩ := h.found hhome
      exact ⟨p, find?_adopt.mpr (Or.inr ⟨fun hc => hid hc.2, hp⟩)⟩
  · intro name query p hp
    rcases find?_adopt.mp hp with ⟨rfl, -, rfl⟩ | ⟨-, hp⟩
    · exact named
    · exact h.named hp
  · intro name query p hp
    rcases find?_adopt.mp hp with ⟨-, -, rfl⟩ | ⟨-, hp⟩
    · exact epoch ▸ Nat.lt_succ_self _
    · exact Nat.lt_succ_of_lt (h.epoch_lt hp)
  · exact fun hr => Nat.lt_succ_of_lt (h.asked_lt hr)
  · intro request name p hr hp he
    rcases find?_adopt.mp hp with ⟨-, -, rfl⟩ | ⟨-, hp⟩
    · exact absurd (he.symm.trans epoch) (Nat.ne_of_lt (h.asked_lt hr))
    · exact h.asked hr hp he

theorem retire (h : c.Lives) {s : Service} (home : c.home? query = some name)
    (queries : ∀ x, s.queries.get? x =
      if query = x then none else (c.service name).queries.get? x) :
    (c.retire query name s).Lives := by
  have hfind : ∀ {n x p}, (c.retire query name s).find? n x = some p ↔
      x ≠ query ∧ c.find? n x = some p := by
    intro n x p
    have hset : (c.retire query name s).find? n x = _ := find?_set _ _ _
    rw [hset]
    split
    · next hn =>
      subst hn
      rw [queries]
      by_cases hx : query = x
      · simp [hx]
      · simp [hx, Ne.symm hx, find?]
    · next hn =>
      refine (and_iff_right_of_imp fun hp => ?_).symm
      rintro rfl
      exact hn (h.name_eq home hp)
  refine ⟨?_, ?_, ?_, ?_, ?_, ?_⟩
  · intro n x p hp
    obtain ⟨hne, hp⟩ := hfind.mp hp
    rw [home?_retire, if_neg hne]
    exact h.home hp
  · intro n x hhome
    rw [home?_retire] at hhome
    split at hhome
    · cases hhome
    · next hne =>
      obtain ⟨p, hp⟩ := h.found hhome
      exact ⟨p, hfind.mpr ⟨hne, hp⟩⟩
  · exact fun hp => h.named (hfind.mp hp).2
  · exact fun hp => h.epoch_lt (hfind.mp hp).2
  · exact h.asked_lt
  · exact fun hr hp => h.asked hr (hfind.mp hp).2

end Lives

/-- Changing one service keeps lives if all its queries go on living. -/
theorem keeps_set {s : Service} (h : (c.service name).Keeps s) (n : String) :
    (c.service n).Keeps ((c.set name s).service n) := by
  unfold set
  by_cases hn : n = name
  · subst hn
    simpa using h
  · simp only [Function.update_of_ne hn]
    exact fun _ => rfl

theorem Lives.step {move : Move} (h : c.Lives) (hstep : Step setup c move c') : c'.Lives := by
  cases hstep with
  | born new => exact h.adopt new rfl rfl
  | begun lives found =>
    refine h.of_keeps rfl rfl (keeps_set (Service.keeps_modify fun _ => rfl)) ?_
    intro request hr
    rcases Multiset.mem_cons.mp hr with rfl | hr
    · exact Or.inr ⟨_, _, found, rfl⟩
    · exact Or.inl hr
  | deferred =>
    exact h.of_keeps rfl rfl (keeps_set (Service.keeps_modify fun _ => rfl))
      fun _ hr => Or.inl hr
  | landed asked =>
    refine h.of_keeps rfl rfl (keeps_set ((Service.keeps_land _).trans
      (Service.keeps_modify fun _ => rfl))) fun request hr => Or.inl ?_
    rw [asked]
    exact Multiset.mem_cons_of_mem hr
  | dropped asked =>
    refine h.of_keeps rfl rfl (fun _ _ => rfl) fun request hr => Or.inl ?_
    rw [asked]
    exact Multiset.mem_cons_of_mem hr
  | merged =>
    exact h.of_keeps rfl rfl (keeps_set (Service.keeps_mergeAll _ _ _)) fun _ hr => Or.inl hr
  | vacuumed lives vacuum =>
    exact h.retire lives fun x => Service.get?_queries_vacuum vacuum

theorem Lives.steps {moves : List Move} (h : c.Lives) (hsteps : Steps setup c moves c') :
    c'.Lives :=
  hsteps.induction (fun _ h hstep => h.step hstep) h

/-! ## What a move does to one query -/

theorem query?_set (s : Service) (x : QueryId) :
    (c.set name s).query? x = if c.home? x = some name then s.queries.get? x else c.query? x := by
  unfold query?
  cases hx : c.home? x with
  | none => simp [set, hx]
  | some home =>
    have hset : (c.set name s).find? home x = _ := find?_set s home x
    unfold find? at hset
    simpa [set, hx] using hset

end Cache

/-- Has one query been changed as given, and no other? -/
def Service.Alters (s : Service) (query : QueryId) (f : Query → Query) (s' : Service) : Prop :=
  ∀ x, s'.queries.get? x =
    if x = query then (s.queries.get? x).map f else s.queries.get? x

namespace Service

variable {conv : Conventions} {s : Service} {query : QueryId}

theorem alters_fetching : s.Alters query Query.begun (s.fetching query) :=
  fun _ => get?_queries_fetching

theorem alters_mark {dirty : Bool} :
    s.Alters query (Query.marked dirty) (s.mark query dirty) :=
  Table.get?_modify _ _ _

theorem alters_answered {answer : Except Failure (QueryData × Fields)} :
    s.Alters query (fun q => Query.marked false (q.answered answer))
      ((s.land conv query answer).mark query false) := by
  intro x
  rw [alters_mark, get?_queries_land]
  split
  · rw [Option.map_map]
    rfl
  · rfl

end Service

namespace Cache

variable {c : Cache} {home name : String} {query x : QueryId} {p : Query}

theorem Lives.find?_alters {s : Service} {f : Query → Query} (h : c.Lives)
    (lives : c.home? query = some home) (alters : (c.service home).Alters query f s) :
    (c.set home s).find? name x = some p ↔
      (x = query ∧ name = home ∧ ∃ q, c.find? home query = some q ∧ p = f q) ∨
        x ≠ query ∧ c.find? name x = some p := by
  rw [find?_set, alters x]
  by_cases hx : x = query
  · subst hx
    by_cases hname : name = home
    · simp [hname, find?, eq_comm]
    · have hnone : c.find? name x ≠ some p := by
        intro hp
        exact hname (h.name_eq lives hp)
      simp [hname, hnone]
  · by_cases hname : name = home
    · simp [hx, hname, find?]
    · simp [hx, hname]

theorem find?_retire {setup : Setup} {s : Service} (h : c.Lives)
    (lives : c.home? query = some home)
    (vacuum : (c.service home).vacuum? setup.conventions query = some s) :
    (c.retire query home s).find? name x = some p ↔ x ≠ query ∧ c.find? name x = some p := by
  have hset : (c.retire query home s).find? name x = _ := find?_set _ _ _
  rw [hset, Service.get?_queries_vacuum vacuum]
  by_cases hx : query = x
  · subst hx
    by_cases hname : name = home
    · simp [hname]
    · have hnone : c.find? name query ≠ some p := by
        intro hp
        exact hname (h.name_eq lives hp)
      simp [hname, hnone]
  · by_cases hname : name = home
    · simp [hx, Ne.symm hx, hname, find?]
    · simp [Ne.symm hx, hname]

/-- A query that lives after a move has come to life in it, or has gone on living. -/
theorem Step.born_or_life {setup : Setup} {c' : Cache} {move : Move} (lives : c.Lives)
    (hstep : Step setup c move c') (hp : c'.find? name x = some p) :
    (∃ ref, move = .born ref ∧ p = Query.new ref.descriptor ref.config
        (Store.filterOf setup ref.descriptor ref.config) c.nextEpoch) ∨
      ∃ q, c.find? name x = some q ∧ q.life = p.life := by
  cases hstep with
  | @born ref new =>
    rcases find?_adopt.mp hp with ⟨-, -, rfl⟩ | ⟨-, hp⟩
    · exact Or.inl ⟨ref, rfl, rfl⟩
    · exact Or.inr ⟨p, hp, rfl⟩
  | begun hhome =>
    rcases (lives.find?_alters hhome Service.alters_fetching).mp hp with
      ⟨rfl, rfl, q, hq, rfl⟩ | ⟨-, hp⟩
    · exact Or.inr ⟨q, hq, rfl⟩
    · exact Or.inr ⟨p, hp, rfl⟩
  | deferred hhome =>
    rcases (lives.find?_alters hhome Service.alters_mark).mp hp with
      ⟨rfl, rfl, q, hq, rfl⟩ | ⟨-, hp⟩
    · exact Or.inr ⟨q, hq, rfl⟩
    · exact Or.inr ⟨p, hp, rfl⟩
  | landed _ _ current =>
    obtain ⟨q, hq, -⟩ := current
    rcases (lives.find?_alters (lives.home hq) Service.alters_answered).mp hp with
      ⟨rfl, rfl, q', hq', rfl⟩ | ⟨-, hp⟩
    · exact Or.inr ⟨q', hq', Query.life_answered.symm⟩
    · exact Or.inr ⟨p, hp, rfl⟩
  | dropped => exact Or.inr ⟨p, hp, rfl⟩
  | @merged service changes =>
    rw [find?_set] at hp
    split at hp
    · next hname =>
      subst hname
      have hkeeps := Service.keeps_mergeAll setup.conventions (c.service name) changes x
      rw [hp, Option.map_some] at hkeeps
      exact Or.inr (Option.map_eq_some_iff.mp hkeeps.symm)
    · exact Or.inr ⟨p, hp, rfl⟩
  | vacuumed hhome vacuum =>
    exact Or.inr ⟨p, ((find?_retire lives hhome vacuum).mp hp).2, rfl⟩

end Cache

end LiveQuery
