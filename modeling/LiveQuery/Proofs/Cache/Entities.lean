import LiveQuery.Proofs.Cache.Beginnings
import LiveQuery.Proofs.Service.Eviction

/-!
# What is shown is cached

Whatever has happened, an item that a query shows is cached as it was last written, unless
the last write was a removal, also where the query does not merge events
(`Run.shown_is_cached`). And every transition evicts, of the entities that were there or
that it has written, exactly those that it removes or releases (`Run.evicts_exactly`). Both
follow from `Service.Evolves`, to which answers, changes and the end of a query keep; all
other moves leave entities, memberships and what is shown as they are (`Service.Agrees`).
-/

namespace LiveQuery

namespace Service

variable {conv : Conventions} {s s' s'' : Service} {id : ItemId} {query x : QueryId} {q : Query}
variable {writes : List Write} {epoch : Nat} {answer : Except Failure (QueryData × Fields)}

/-- Do two states of a service agree in their entities, memberships, and what they show? -/
structure Agrees (conv : Conventions) (s s' : Service) : Prop where
  entities : s'.entities = s.entities
  index : s'.index = s.index
  shown : ∀ id, s'.IsShown conv id ↔ s.IsShown conv id

theorem Evolves.agrees (h : s.Evolves conv writes s') (agrees : Agrees conv s' s'') :
    s.Evolves conv writes s'' :=
  h.congr agrees.entities agrees.shown fun _ _ _ => by rw [agrees.index]

theorem agrees_modify {f : Query → Query} (data : ∀ q, (f q).state.data = q.state.data) :
    Agrees conv s { s with queries := s.queries.modify query f } := by
  refine ⟨rfl, rfl, fun id => isShown_congr fun x => ?_⟩
  rw [Table.get?_modify]
  split
  · rw [Option.map_map]
    exact Option.map_congr fun q _ => data q
  · rfl

theorem agrees_fetching : Agrees conv s (s.fetching query) := agrees_modify fun _ => rfl

theorem agrees_mark {dirty : Bool} : Agrees conv s (s.mark query dirty) :=
  agrees_modify fun _ => rfl

theorem agrees_adopt (new : s.queries.get? query = none) (data : q.state.data = none) :
    Agrees conv s (s.adopt query q) := by
  have hqueries : ∀ x, (s.adopt query q).queries.get? x =
      if x = query then some q else s.queries.get? x := by
    intro x
    rw [adopt, Table.get?_insert]
    simp only [eq_comm]
  refine ⟨rfl, rfl, fun id => ⟨fun h => (isShown_replaced hqueries h).resolve_right ?_, ?_⟩⟩
  · rintro ⟨p, hp, hshows⟩
    obtain rfl := Option.some.inj hp
    exact Query.not_shows_of_none data hshows
  · rintro ⟨x, p, hp, hshows⟩
    have hx : x ≠ query := by
      rintro rfl
      rw [new] at hp
      cases hp
    exact ⟨x, p, by rw [hqueries, if_neg hx, hp], hshows⟩

theorem landing_eq_nil (gone : ∀ q, s.queries.get? query = some q → q.epoch ≠ epoch) :
    landing conv s query epoch answer = [] := by
  cases answer with
  | error failure => rfl
  | ok result =>
    refine if_neg fun h => ?_
    obtain ⟨q, hq, hepoch⟩ := (Option.any_eq_true _ _).mp h
    exact gone q hq (beq_iff_eq.mp hepoch)

theorem evolves_land (hq : s.queries.get? query = some q) (current : q.epoch = epoch) :
    s.Evolves conv (landing conv s query epoch answer) (s.land conv query answer) := by
  cases answer with
  | error failure => exact evolves_fetchFailed failure
  | ok result =>
    have hcurrent : (s.queries.get? query).any (·.epoch == epoch) = true := by
      rw [hq]
      exact beq_iff_eq.mpr current
    rw [landing, if_pos hcurrent]
    exact evolves_fetched result.1 result.2 hq

end Service

/-! ## Moves -/

def Move.writes (conv : Conventions) (c : Cache) (name : String) : Move → List Write
  | .answered request answer =>
    (c.service name).landing conv request.query request.epoch answer
  | .merged service changes =>
    if service = name then (c.service name).merging conv changes else []
  | _ => []

theorem Move.IsInner.writes_eq {conv : Conventions} {c : Cache} {name : String} {move : Move}
    (h : move.IsInner) : move.writes conv c name = [] := by
  cases move with
  | answered | merged => exact h.elim
  | born | begun | deferred | vacuumed => rfl

namespace Cache

variable {setup : Setup} {c c' : Cache} {move : Move} {name : String}

theorem service_set (s : Service) (home : String) :
    (c.set home s).service name = if name = home then s else c.service name :=
  Function.update_apply _ _ _ _

/-- A move of the store's own, unless it ends a query, leaves no trace in what is cached or
shown. -/
theorem Step.agrees (lives : c.Lives) (inner : move.IsInner)
    (goesOn : ∀ query, move ≠ .vacuumed query) (hstep : Step setup c move c') :
    Service.Agrees setup.conventions (c.service name) (c'.service name) := by
  have hset : ∀ {home s}, Service.Agrees setup.conventions (c.service home) s →
      Service.Agrees setup.conventions (c.service name) ((c.set home s).service name) := by
    intro home s hs
    rw [service_set]
    split
    · next hname => exact hname ▸ hs
    · exact ⟨rfl, rfl, fun _ => Iff.rfl⟩
  cases hstep with
  | born new => exact hset (Service.agrees_adopt (lives.find?_eq_none new) rfl)
  | begun => exact hset Service.agrees_fetching
  | deferred => exact hset Service.agrees_mark
  | landed | dropped | merged => exact inner.elim
  | vacuumed => exact absurd rfl (goesOn _)

/-- Every move keeps to the rule. Of changes, this is said one by one. -/
theorem Step.evolves (lives : c.Lives) (hstep : Step setup c move c')
    (unmerged : ∀ service changes, move ≠ .merged service changes) :
    (c.service name).Evolves setup.conventions (move.writes setup.conventions c name)
      (c'.service name) := by
  have hagrees : move.IsInner → (∀ query, move ≠ .vacuumed query) →
      (c.service name).Evolves setup.conventions [] (c'.service name) := fun inner goesOn =>
    Service.evolves_refl.agrees (hstep.agrees lives inner goesOn)
  cases hstep with
  | born | begun | deferred => exact hagrees trivial (by simp)
  | @landed request rest answer asked fits current =>
    obtain ⟨q, hq, hepoch⟩ := current
    have hmem : request ∈ c.outstanding := asked ▸ Multiset.mem_cons_self request rest
    show (c.service name).Evolves _ _ ((c.set _ _).service name)
    rw [service_set]
    split
    · next hname =>
      subst hname
      exact (Service.evolves_land hq hepoch).agrees Service.agrees_mark
    · next hname =>
      rw [Move.writes, Service.landing_eq_nil fun p hp hp' =>
        hname (lives.service_eq hmem hp hp').symm]
      exact Service.evolves_refl
  | @dropped request rest answer asked gone =>
    have hmem : request ∈ c.outstanding := asked ▸ Multiset.mem_cons_self request rest
    have hgone : ∀ p, (c.service name).queries.get? request.query = some p →
        p.epoch ≠ request.epoch := fun p hp hp' => gone (lives.isCurrent hmem hp hp')
    rw [Move.writes, Service.landing_eq_nil hgone]
    exact Service.evolves_refl
  | merged => exact absurd rfl (unmerged _ _)
  | vacuumed hhome vacuum =>
    show (c.service name).Evolves _ _ ((c.set _ _).service name)
    rw [service_set]
    split
    · next hname => subst hname; exact Service.evolves_vacuum vacuum
    · exact Service.evolves_refl

variable {writes : List Write} {moves : List Move}

theorem Mirror.steps (lives : c.Lives) (h : c.Mirror setup.conventions)
    (hsteps : Steps setup c moves c') : c'.Mirror setup.conventions := by
  have hboth := hsteps.induction (P := fun c => c.Lives ∧ c.Mirror setup.conventions)
    (fun _ hc hstep => ⟨hc.1.step hstep, hc.2.step hc.1 hstep⟩) ⟨lives, h⟩
  exact hboth.2

theorem Step.accounts (lives : c.Lives) (mirror : c.Mirror setup.conventions)
    (h : (c.service name).Accounts setup.conventions writes) (hstep : Step setup c move c') :
    (c'.service name).Accounts setup.conventions
      (writes ++ move.writes setup.conventions c name) := by
  cases move with
  | merged service changes =>
    cases hstep
    rw [service_set, Move.writes]
    by_cases hname : name = service
    · subst hname
      rw [if_pos rfl, if_pos rfl]
      exact h.mergeAll (mirror name) changes
    · rw [if_neg hname, if_neg (Ne.symm hname), List.append_nil]
      exact h
  | born | begun | deferred | answered | vacuumed => exact (hstep.evolves lives nofun).accounts h

theorem Steps.accounts_inner (lives : c.Lives)
    (mirror : c.Mirror setup.conventions)
    (h : (c.service name).Accounts setup.conventions writes)
    (inner : ∀ move ∈ moves, move.IsInner) (hsteps : Steps setup c moves c') :
    (c'.service name).Accounts setup.conventions writes := by
  have hall := hsteps.induction (P := fun c => c.Lives ∧ c.Mirror setup.conventions ∧
    (c.service name).Accounts setup.conventions writes)
    (fun {c move c'} hmem hc hstep => ?_) ⟨lives, mirror, h⟩
  · exact hall.2.2
  · obtain ⟨hlives, hmirror, haccounts⟩ := hc
    refine ⟨hlives.step hstep, hmirror.step hlives hstep, ?_⟩
    have hafter := hstep.accounts hlives hmirror haccounts
    rwa [(inner move hmem).writes_eq, List.append_nil] at hafter

end Cache

/-! ## Runs -/

variable {setup : Setup} {history : List Happening} {w : World} {name : String}

def Act.landing (conv : Conventions) (s : Service) : Act → List Write
  | .answered query epoch answer => s.landing conv query epoch answer
  | _ => []

/-- What is written to the entities of a service when something happens: by the answer that
comes, and by the changes that are merged. -/
def Happening.writes (setup : Setup) (h : Happening) (name : String) : List Write :=
  h.act.landing setup.conventions (h.before.store.service name) ++
    (h.before.store.service name).merging setup.conventions (h.changes name)

/-- What a history writes to the entities of a service. -/
def writesOn (setup : Setup) (name : String) (history : List Happening) : List Write :=
  history.flatMap (·.writes setup name)

theorem Happening.Occurs.writes_eq {h : Happening} (occurs : h.Occurs setup) (name : String) :
    h.writes setup name =
      (h.before.reaching h.act).flatMap (Move.writes setup.conventions h.before.cache name) := by
  have hquiet : (∀ query epoch answer, h.act ≠ .answered query epoch answer) →
      h.act.landing setup.conventions (h.before.store.service name) = [] := by
    intro hnot
    unfold Act.landing
    split
    · next ha => exact absurd ha (hnot _ _ _)
    · rfl
  unfold writes
  rcases occurs.reaching_cases name with ⟨hnone, hnot, hchanges⟩ |
    ⟨request, answer, hone, hanswered, hchanges⟩ | ⟨service, changes, hone, hnot, hchanges⟩
  · rw [hquiet hnot, hnone, hchanges]
    rfl
  · rw [hone, hchanges, hanswered, List.flatMap_singleton]
    exact List.append_nil _
  · rw [hquiet hnot, hone, hchanges, List.flatMap_singleton, List.nil_append, Move.writes]
    split
    · rfl
    · rfl

theorem Run.accounts (run : Run setup history w) (name : String) :
    (w.store.service name).Accounts setup.conventions (writesOn setup name history) := by
  induction run with
  | start =>
    rintro id ⟨query, q, hq, -⟩
    cases hq
  | @act history w w' a signal hrun hact ih =>
    have hoccurs : Happening.Occurs setup ⟨w, a, signal, w'⟩ := ⟨hrun.lives, hact⟩
    obtain ⟨inner, hinner, hsteps⟩ := World.steps_of_act hrun.lives hact
    obtain ⟨mid, hreaching, hsteps⟩ := hsteps.exists_of_append
    have hwrites : writesOn setup name (history ++ [⟨w, a, signal, w'⟩]) =
        writesOn setup name history ++
          (w.reaching a).flatMap (Move.writes setup.conventions w.cache name) := by
      rw [writesOn, List.flatMap_append, List.flatMap_singleton, hoccurs.writes_eq]
      rfl
    have hlives := hrun.lives.steps hreaching
    have hmirror := Cache.Mirror.steps hrun.lives hrun.mirror hreaching
    refine Cache.Steps.accounts_inner hlives hmirror ?_ hinner hsteps
    rw [hwrites]
    have hone : ∀ {move}, w.reaching a = [move] → (mid.service name).Accounts setup.conventions
        (writesOn setup name history ++
          (w.reaching a).flatMap (Move.writes setup.conventions w.cache name)) := by
      intro move hone
      rw [hone] at hreaching ⊢
      rw [List.flatMap_singleton]
      exact hreaching.step_of_singleton.accounts hrun.lives hrun.mirror ih
    rcases hoccurs.reaching_cases name with ⟨hnone, -⟩ | ⟨request, answer, hanswered, -⟩ |
      ⟨service, changes, hmerged, -⟩
    · rw [show w.reaching a = [] from hnone] at hreaching ⊢
      cases hreaching
      rw [List.flatMap_nil, List.append_nil]
      exact ih
    · exact hone hanswered
    · exact hone hmerged

theorem exists_removed_of_mem_writesOn {write : Write}
    (h : write ∈ writesOn setup name history) (removes : write.item? = none) :
    ∃ change ∈ changesOn name history, change.kind = .removed ∧
      setup.conventions.idOf change.item = some write.id ∧ write = change.write write.id := by
  obtain ⟨happening, hmem, hwrite⟩ := List.mem_flatMap.mp h
  rcases List.mem_append.mp hwrite with hlanding | hmerging
  · have hstores : write.item?.isSome = true := by
      unfold Act.landing at hlanding
      split at hlanding
      · exact Service.isSome_of_mem_landing hlanding
      · cases hlanding
    rw [removes] at hstores
    cases hstores
  · obtain ⟨change, hchange, hid, hwrite⟩ := Service.exists_of_mem_merging hmerging
    refine ⟨change, List.mem_flatMap.mpr ⟨happening, hmem, hchange⟩, ?_, hid, hwrite⟩
    rw [hwrite] at removes
    by_contra hkind
    rw [Change.write, if_neg hkind] at removes
    cases removes

/-- What a query shows, whether or not it merges events, is cached as the last write for its
id has left it. It is missing only if the last write was the removal of a change. -/
theorem Run.shown_is_cached {query : QueryId} {q : Query} {data : QueryData} {item : Json}
    {id : ItemId} (run : Run setup history w)
    (lives : (w.store.service name).queries.get? query = some q)
    (result : q.state.data = some data) (shown : item ∈ data.all)
    (named : setup.conventions.idOf item = some id) :
    ∃ write, Write.latest? (writesOn setup name history) id = some write ∧
      (w.store.service name).entities.get? id = write.item? ∧
      (write.item? = none → ∃ change ∈ changesOn name history, change.kind = .removed ∧
        setup.conventions.idOf change.item = some id ∧ write = change.write id) := by
  have hshows : q.Shows setup.conventions id :=
    Query.shows_iff_data.mpr ⟨data, result, item, shown, named⟩
  obtain ⟨write, hlast, hentity⟩ := run.accounts name id ⟨query, q, lives, hshows⟩
  refine ⟨write, hlast, hentity, fun hnone => ?_⟩
  obtain ⟨hmem, rfl⟩ := Write.mem_of_latest? hlast
  exact exists_removed_of_mem_writesOn hmem hnone

namespace Notes

def archive : QueryRef where
  descriptor := ⟨"notes", .find, none, none⟩
  config := { realtime := .disabled }
  id := ⟨"q/fea3299c224e46c6"⟩
  id_eq := by decide +kernel

/-- Somebody reads the archive, and then the first note is removed. -/
def archiving : List Act :=
  [.materialize archive, .subscribe archive.id, .goOn, .giveBack, .goOn,
    .answered archive.id 2 (.ok (.list [note 1 100 "idea"], [])), .goOn, .giveBack,
    .mutated "notes" ⟨.removed, note 1 100 "idea"⟩, .goOn]

def archived : World := opened.play {} archiving

/-- The archive still shows the first note, and the last that was written of it is that it
is removed. -/
theorem archive_shows_removed :
    ∃ history q data item, ∃ change : Change, Run {} history archived ∧
      (archived.store.service "notes").queries.get? archive.id = some q ∧
      q.state.data = some data ∧ item ∈ data.all ∧
      Conventions.standard.idOf item = some (.int 1) ∧ change.kind = .removed ∧
      Write.latest? (writesOn {} "notes" history) (.int 1) = some (change.write (.int 1)) := by
  obtain ⟨history, hrun⟩ := run_opened
  have harchived := hrun.play archiving
  have hshown : ((archived.store.service "notes").queries.get? archive.id).any
      (fun q => q.state.data.any fun data => data.all.any fun item =>
        Conventions.standard.idOf item == some (.int 1)) = true := by decide +kernel
  obtain ⟨q, hq, hshown⟩ := (Option.any_eq_true _ _).mp hshown
  obtain ⟨data, hdata, hshown⟩ := (Option.any_eq_true _ _).mp hshown
  obtain ⟨item, hitem, hid⟩ := List.any_eq_true.mp hshown
  have hgone : (archived.store.service "notes").entities.get? (.int 1) = none := by
    decide +kernel
  obtain ⟨write, hlast, hentity, hremoved⟩ :=
    Run.shown_is_cached harchived hq hdata hitem (beq_iff_eq.mp hid)
  obtain ⟨change, -, hkind, -, rfl⟩ := hremoved (hentity.symm.trans hgone)
  exact ⟨_, q, data, item, change, harchived, hq, hdata, hitem, beq_iff_eq.mp hid, hkind, hlast⟩

end Notes

end LiveQuery
