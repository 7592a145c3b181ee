import LiveQuery.Proofs.Cache.Freshness
import LiveQuery.Proofs.Cache.Outline
import LiveQuery.Proofs.Store.Batches
import LiveQuery.Proofs.Store.Delivery
import LiveQuery.Proofs.Store.Listeners
import LiveQuery.Proofs.Store.Settling

/-!
# Batches and events one by one

A store that collects events and applies them as one batch ends up with what a store ends up with
that applies each event as it arrives, but for the notifications and for the fetches that events
call for (`Run.batch_agrees_with_events`). What a store without events to come is going to be is
known beforehand: its *prospect* is its outline with all changes merged that are still to be
applied. While the store goes on with its work the prospect stays the same
(`World.Quiet.resumes`), so that it does not matter in which order the services come to
their turn, nor what is notified and fetched between.
-/

namespace LiveQuery

/-! ## Outlines of the store -/

/-- A store without what it has told its listeners, without the events that wait, and without what
events can do to fetches. -/
@[ext]
structure Outline where
  service : String → Service
  home? : QueryId → Option String
  nextEpoch : Nat
  listeners : List (QueryId × ListenerId)
  watchers : List ListenerId
  registered : Nat
  bound : List String

def Store.outline (s : Store) : Outline where
  service name := (s.service name).outline
  home? := s.homes.get?
  nextEpoch := s.nextEpoch
  listeners := s.listeners
  watchers := s.watchers
  registered := s.registered
  bound := s.bound

/-- The outline after changes of every service have been merged. -/
def Outline.after (conv : Conventions) (o : Outline) (changes : String → List Change) : Outline :=
  { o with service := fun name => ((o.service name).mergeAll conv (changes name)).service }

theorem Outline.after_nil (conv : Conventions) (o : Outline) : o.after conv (fun _ => []) = o := rfl

theorem Outline.after_after (conv : Conventions) (o : Outline) (first more : String → List Change) :
    (o.after conv first).after conv more = o.after conv fun name => first name ++ more name := by
  unfold after
  congr 1
  funext name
  exact (Service.mergeAll_append (first name) (more name)).symm

/-- Are two stores the same, but for notifications, for events that wait, and for what events can do
to fetches? -/
structure Store.Matches (s t : Store) : Prop where
  services : ∀ name, (s.service name).Matches (t.service name)
  homes : ∀ query, s.homes.get? query = t.homes.get? query
  nextEpoch : s.nextEpoch = t.nextEpoch
  listeners : s.listeners = t.listeners
  watchers : s.watchers = t.watchers
  registered : s.registered = t.registered
  bound : s.bound = t.bound

namespace Store

variable {setup : Setup} {s t : Store} {query : QueryId} {name : String} {changes : List Change}

theorem matches_of_outline (h : s.outline = t.outline) : s.Matches t where
  services name := Service.matches_of_outline (congrArg (·.service name) h)
  homes query := congrArg (·.home? query) h
  nextEpoch := congrArg Outline.nextEpoch h
  listeners := congrArg Outline.listeners h
  watchers := congrArg Outline.watchers h
  registered := congrArg Outline.registered h
  bound := congrArg Outline.bound h

theorem nextEpoch_apply : (s.apply setup name changes).1.nextEpoch = s.nextEpoch := by
  unfold apply
  dsimp only
  split <;> rfl

theorem outline_apply : (s.apply setup name changes).1.outline =
    s.outline.after setup.conventions fun n => Work.changesOn n (.apply name changes) := by
  have hregistry : (s.apply setup name changes).1.registry = _ := registry_apply name changes
  have hreception : (s.apply setup name changes).1.reception = _ := reception_apply name changes
  ext1
  · funext n
    show ((s.apply setup name changes).1.service n).outline =
      ((s.service n).outline.mergeAll setup.conventions (if name = n then changes else [])).service
    rw [service_apply, ← Service.outline_mergeAll]
    by_cases hn : name = n
    · subst hn
      rw [Function.update_self, if_pos rfl]
    · rw [Function.update_of_ne (Ne.symm hn), if_neg hn]
      rfl
  · exact congrArg Table.get? (homes_apply changes)
  · exact nextEpoch_apply
  · exact congrArg Registry.listeners hregistry
  · exact congrArg Registry.watchers hregistry
  · exact congrArg Registry.registered hregistry
  · exact congrArg Reception.bound hreception

theorem outline_refetch
    (refetches : ∀ q, s.query? query = some q → q.config.realtime = .refetch) :
    (s.refetch query).1.outline = s.outline := by
  obtain ⟨move?, hown, hmoves⟩ : s.MovesBy {} _ (s.refetch query) := movesBy_refetch
  obtain ⟨hservice, hhome, hepoch⟩ := (hmoves 0).outline_eq hown fun q hq =>
    refetches q (query?_cache.symm.trans hq)
  have hregistry : (s.refetch query).1.registry = _ := registry_refetch
  have hreception : (s.refetch query).1.reception = _ := reception_refetch
  ext1
  · exact hservice
  · exact hhome
  · exact hepoch
  · exact congrArg Registry.listeners hregistry
  · exact congrArg Registry.watchers hregistry
  · exact congrArg Registry.registered hregistry
  · exact congrArg Reception.bound hreception

end Store

/-! ## What events lead to -/

/-- Does an act bring events on, or go on with what they lead to? -/
def Act.IsOfEvents : Act → Prop
  | .emit _ | .flush | .timedOut _ | .tick _ | .goOn | .giveBack => True
  | .materialize _ | .subscribe _ | .unsubscribe _ _ _ | .refetch _ | .watch | .unwatch _
  | .mutated _ _ | .answered _ _ _ => False

/-- Is a piece of work such as events lead to? Nothing is bound then, and only queries that are
fetched again whenever something changes are fetched. -/
def Store.Expects (s : Store) : Work → Prop
  | .refetch query => ∀ q, s.query? query = some q → q.config.realtime = .refetch
  | .bind _ | .keepBinding _ => False
  | .call _ _ _ | .launch _ | .startTimer _ _ | .apply _ _ => True

/-- Is nothing left to be done but what events lead to? -/
structure World.Quiet (w : World) : Prop where
  lives : w.cache.Lives
  expected : ∀ job, .work job ∈ w.agenda → w.store.Expects job

namespace World

variable {setup : Setup} {w w' : World} {a : Act} {signal : Option Signal} {name : String}

theorem Quiet.of_rests (lives : w.cache.Lives) (rests : w.agenda = []) : w.Quiet where
  lives := lives
  expected job hjob := by
    rw [rests] at hjob
    cases hjob

theorem exists_refetching_of_errand (lives : w'.cache.Lives)
    (h : w.act? setup a = some (w', signal)) {query : QueryId}
    (errand : w.Errand setup a (.refetch query)) :
    ∃ q, w'.store.query? query = some q ∧ q.config.realtime = .refetch := by
  cases errand with
  | @refetch service changes others _ agenda wanted =>
    have hstore : w'.store = (w.store.apply setup service changes).1 := by
      rw [(transition_of_act h).1, transition, agenda]
      rfl
    unfold Store.refetched at wanted
    dsimp only at wanted
    split at wanted
    · cases wanted
    · obtain ⟨p, hp, hrefetch⟩ := Service.mem_refetching.mp (List.mem_filter.mp wanted).1
      have hfound : w'.cache.find? service query = some p := by
        show (w'.store.service service).queries.get? query = some p
        rw [hstore, Store.service_apply, Function.update_self]
        exact hp
      exact ⟨p, query?_cache.symm.trans (lives.query?_eq_some.mpr ⟨service, hfound⟩), hrefetch⟩

theorem expects_errand (lives : w'.cache.Lives) (h : w.act? setup a = some (w', signal))
    {query : QueryId} (errand : w.Errand setup a (.refetch query)) :
    w'.store.Expects (.refetch query) := by
  intro q hq
  obtain ⟨p, hp, hrefetch⟩ := exists_refetching_of_errand lives h errand
  obtain rfl := Option.some.inj (hq.symm.trans hp)
  exact hrefetch

theorem exists_life_before (lives : w.cache.Lives) (events : a.IsOfEvents)
    (h : w.act? setup a = some (w', signal)) {query : QueryId} {q : Query}
    (after : w'.store.query? query = some q) :
    ∃ p, w.store.query? query = some p ∧ p.life = q.life := by
  obtain ⟨own, hcauses, hsteps⟩ := caused_steps_of_act lives h
  obtain ⟨service, hq⟩ := (lives.steps hsteps).query?_eq_some.mp (query?_cache.trans after)
  have hunborn : ∀ ref : QueryRef, ref.id = query → .born ref ∉ w.reaching a ++ own.toList := by
    intro ref _ hmem
    rcases List.mem_append.mp hmem with hreaching | hown
    · exact Happening.Occurs.not_isInner_of_mem_reaching (h := ⟨w, a, signal, w'⟩) ⟨lives, h⟩
        hreaching trivial
    · rw [show a = .materialize ref from hcauses _ (Option.mem_toList.mp hown)] at events
      exact events
  obtain ⟨p, hp, hlife⟩ := hsteps.life_of_not_born lives hunborn hq
  exact ⟨p, query?_cache.symm.trans (lives.query?_eq_some.mpr ⟨service, hp⟩), hlife⟩

namespace Quiet

/-- Events lead to nothing else than what events lead to. -/
theorem act (quiet : w.Quiet) (events : a.IsOfEvents) (h : w.act? setup a = some (w', signal)) :
    w'.Quiet := by
  obtain ⟨own, hcauses, hsteps⟩ := caused_steps_of_act quiet.lives h
  have hlives : w'.cache.Lives := quiet.lives.steps hsteps
  refine ⟨hlives, fun job hjob => ?_⟩
  rcases planned_or_rest h hjob with hplanned | hleft
  · cases herrand : job.isErrand with
    | false =>
      cases job with
      | call | launch => trivial
      | startTimer | refetch | apply | bind | keepBinding => cases herrand
    | true =>
      have hcomes : w.Errand setup a job := errand_of_mem (mem_errands hplanned herrand)
      cases hcomes with
      | apply | startTimer => trivial
      | bind => exact events.elim
      | keepBinding agenda => exact quiet.expected _ (agenda ▸ List.mem_cons_self)
      | refetch agenda wanted => exact expects_errand hlives h (.refetch agenda wanted)
  · have hbefore := quiet.expected job (mem_of_mem_rest hleft)
    cases job with
    | call | launch | startTimer | apply => trivial
    | bind | keepBinding => exact hbefore.elim
    | refetch query =>
      intro q hq
      obtain ⟨p, hp, hlife⟩ := exists_life_before quiet.lives events h hq
      rw [← show p.config = q.config from congrArg Life.config hlife]
      exact hbefore p hp

theorem outline (quiet : w.Quiet) (events : a.IsOfEvents)
    (h : w.act? setup a = some (w', signal)) : w'.store.outline =
      w.store.outline.after setup.conventions
        fun name => (w.done a).flatMap (Work.changesOn name) := by
  rw [(transition_of_act h).1]
  cases a with
  | materialize | subscribe | unsubscribe | refetch | watch | unwatch | mutated | answered =>
    exact events.elim
  | flush | timedOut | tick | giveBack => rfl
  | emit event =>
    unfold transition Store.emit
    dsimp only
    split <;> rfl
  | goOn =>
    unfold transition done
    cases hagenda : w.agenda with
    | nil => rfl
    | cons turn others =>
      cases turn with
      | outside => rfl
      | work job =>
        have hexpected : w.store.Expects job := quiet.expected job (hagenda ▸ List.mem_cons_self)
        simp only [List.flatMap_singleton]
        cases job with
        | call t l payload =>
          dsimp only [Store.run]
          split <;> rfl
        | launch | startTimer => rfl
        | refetch query => exact Store.outline_refetch hexpected
        | apply service changes => exact Store.outline_apply
        | bind | keepBinding => exact hexpected.elim

end Quiet

/-- What the outline is going to be once all that is to be applied has been applied. -/
def prospect (setup : Setup) (w : World) : Outline :=
  w.store.outline.after setup.conventions w.waitingOn

theorem Quiet.resumes (quiet : w.Quiet) (h : w.Resumes setup w') :
    w'.Quiet ∧ w'.prospect setup = w.prospect setup ∧ w'.store.batch = w.store.batch := by
  obtain ⟨a, signal, hgoes, hact⟩ := h
  have hevents : a.IsOfEvents := by
    rcases hgoes with rfl | rfl <;> trivial
  have hbatch : w'.store.batch = w.store.batch := by
    rw [batch_of_act hact]
    rcases hgoes with rfl | rfl <;> rfl
  have hafter : w'.waitingOn = fun name => (w.rest a).flatMap (·.changesOn name) := by
    funext name
    rw [waitingOn_of_act name hact, changesOn_errands]
    rcases hgoes with rfl | rfl <;> rfl
  have hbefore : w.waitingOn = fun name => (w.done a).flatMap (Work.changesOn name) ++
      (w.rest a).flatMap (·.changesOn name) :=
    funext fun name => (flatMap_done_append_rest (·.changesOn name) rfl hact).symm
  refine ⟨quiet.act hevents hact, ?_, hbatch⟩
  rw [prospect, prospect, quiet.outline hevents hact, Outline.after_after, hafter, hbefore]

theorem Quiet.resumes_on (quiet : w.Quiet) (h : Relation.ReflTransGen (Resumes setup) w w') :
    w'.Quiet ∧ w'.prospect setup = w.prospect setup ∧ w'.store.batch = w.store.batch := by
  induction h with
  | refl => exact ⟨quiet, rfl, rfl⟩
  | tail _ hresumes ih =>
    obtain ⟨hquiet, hprospect, hbatch⟩ := ih
    obtain ⟨hquiet', hprospect', hbatch'⟩ := hquiet.resumes hresumes
    exact ⟨hquiet', hprospect'.trans hprospect, hbatch'.trans hbatch⟩

/-- The store ends up as it was going to be. -/
theorem Quiet.settles (quiet : w.Quiet) (h : w.Settles setup w') :
    w'.Quiet ∧ w'.store.outline = w.prospect setup ∧ w'.store.batch = w.store.batch := by
  obtain ⟨hquiet, hprospect, hbatch⟩ := quiet.resumes_on h.path
  refine ⟨hquiet, ?_, hbatch⟩
  have hnone : w'.waitingOn = fun _ => [] := funext fun _ => waitingOn_of_rests h.rests
  rw [← hprospect, prospect, hnone, Outline.after_nil]

theorem Quiet.act_settles (quiet : w.Quiet) (rests : w.agenda = []) (events : a.IsOfEvents)
    (h : w.act? setup a = some (w', signal)) {last : World} (settles : w'.Settles setup last) :
    last.Quiet ∧ last.store.outline = w.store.outline.after setup.conventions
        (fun name => (w.errands setup a).flatMap (Work.changesOn name)) ∧
      last.store.batch = w.batchAfter setup a := by
  obtain ⟨hquiet, houtline, hbatch⟩ := (quiet.act events h).settles settles
  refine ⟨hquiet, ?_, hbatch.trans (batch_of_act h)⟩
  have hdone : w.done a = [] := by
    rcases done_cases w a with ⟨job, others, -, hagenda, -⟩ | ⟨hdone, -⟩
    · rw [rests] at hagenda
      cases hagenda
    · exact hdone
  have hrest : w.rest a = [] := by
    refine List.eq_nil_iff_forall_not_mem.mpr fun turn hturn => ?_
    have hmem := mem_of_mem_rest hturn
    rw [rests] at hmem
    cases hmem
  have hwaiting : w'.waitingOn = fun name => (w.errands setup a).flatMap (Work.changesOn name) := by
    funext name
    rw [waitingOn_of_act name h, hrest, List.flatMap_nil, List.append_nil]
  rw [houtline, prospect, quiet.outline events h, hdone, hwaiting]
  rfl

end World

/-! ## Sequences of events -/

/-- Events arrive one after the other. Between them the store settles, and time may pass. -/
inductive World.Receives (setup : Setup) : World → List Event → World → Prop where
  | none {w : World} : Receives setup w [] w
  | later {w next last : World} {events : List Event} {milliseconds : Nat} :
      w.act? setup (.tick milliseconds) = some (next, Option.none) →
      Receives setup next events last → Receives setup w events last
  | event {w next settled last : World} {event : Event} {events : List Event}
      {signal : Option Signal} :
      w.act? setup (.emit event) = some (next, signal) → next.Settles setup settled →
      Receives setup settled events last → Receives setup w (event :: events) last

/-- Events arrive one after the other and wait; then their window is closed, by hand or by its
timer, and the store settles. -/
inductive World.ReceivesInBatch (setup : Setup) (w : World) (events : List Event) (last : World) :
    Prop where
  | closed {waiting next : World} {a : Act} {signal : Option Signal}
      (receives : Receives setup w events waiting)
      (closes : a = .flush ∨ a = .timedOut waiting.store.batch.window)
      (act : waiting.act? setup a = some (next, signal)) (settles : next.Settles setup last)

namespace World

variable {setup : Setup} {w last : World} {events : List Event}

theorem exists_receives (rests : w.agenda = []) (events : List Event) :
    ∃ last, w.Receives setup events last := by
  induction events generalizing w with
  | nil => exact ⟨w, .none⟩
  | cons event events ih =>
    have hopen : w.isOpen = true := by rw [isOpen, rests]
    obtain ⟨settled, hsettles⟩ :=
      exists_settled setup (w.proceed (w.store.emit setup w.clock event))
    obtain ⟨last, hlast⟩ := ih hsettles.rests
    exact ⟨last, .event (if_pos hopen) hsettles hlast⟩

theorem of_tick {next : World} {milliseconds : Nat} {signal : Option Signal}
    (h : w.act? setup (.tick milliseconds) = some (next, signal)) :
    next.agenda = w.agenda ∧ next.store = w.store := by
  obtain ⟨-, hnext⟩ := Option.ite_none_right_eq_some.mp h
  cases hnext
  exact ⟨rfl, rfl⟩

theorem Receives.rests (h : w.Receives setup events last) (rests : w.agenda = []) :
    last.agenda = [] := by
  induction h with
  | none => exact rests
  | later htick _ ih => exact ih ((of_tick htick).1.trans rests)
  | event _ hsettles _ ih => exact ih hsettles.rests

theorem exists_receivesInBatch (rests : w.agenda = []) (events : List Event) :
    ∃ last, w.ReceivesInBatch setup events last := by
  obtain ⟨waiting, hreceives⟩ : ∃ waiting, w.Receives setup events waiting :=
    exists_receives rests events
  have hopen : waiting.isOpen = true := by rw [isOpen, hreceives.rests rests]
  obtain ⟨last, hsettles⟩ := exists_settled setup (waiting.proceed waiting.store.flush)
  exact ⟨last, .closed hreceives (Or.inl rfl) (if_pos hopen) hsettles⟩

/-- If events do not wait, those of every service are merged as they arrive. -/
theorem Receives.outline_of_immediate (h : w.Receives setup events last) (quiet : w.Quiet)
    (rests : w.agenda = []) (immediate : setup.batchInterval = 0) :
    last.store.outline = w.store.outline.after setup.conventions
      fun name => events.flatMap (·.on name) := by
  induction h with
  | none => rfl
  | later htick _ ih =>
    obtain ⟨hagenda, hstore⟩ := of_tick htick
    rw [ih (quiet.act (a := .tick _) trivial htick) (hagenda.trans rests), hstore]
  | event hemit hsettles _ ih =>
    obtain ⟨hquiet, houtline, -⟩ := quiet.act_settles (a := .emit _) rests trivial hemit hsettles
    rw [ih hquiet hsettles.rests, houtline, Outline.after_after]
    simp only [changesOn_errands, if_pos immediate, List.flatMap_cons]

theorem Receives.queue_of_batching (h : w.Receives setup events last) (quiet : w.Quiet)
    (rests : w.agenda = []) (batches : setup.batchInterval ≠ 0) :
    last.Quiet ∧ last.store.outline = w.store.outline ∧
      last.store.batch.queue = w.store.batch.queue ++ events := by
  induction h with
  | none => exact ⟨quiet, rfl, (List.append_nil _).symm⟩
  | later htick _ ih =>
    obtain ⟨hagenda, hstore⟩ := of_tick htick
    rw [← hstore]
    exact ih (quiet.act (a := .tick _) trivial htick) (hagenda.trans rests)
  | event hemit hsettles _ ih =>
    obtain ⟨hquiet, houtline, hbatch⟩ :=
      quiet.act_settles (a := .emit _) rests trivial hemit hsettles
    obtain ⟨hlast, hsame, hqueue⟩ := ih hquiet hsettles.rests
    refine ⟨hlast, hsame.trans (houtline.trans ?_), ?_⟩
    · simp only [changesOn_errands, if_neg batches]
      rfl
    · rw [hqueue, hbatch, batchAfter, if_neg batches, Batch.push, List.append_assoc]
      rfl

/-- Once their window is closed, the events of every service have been merged in their order. -/
theorem ReceivesInBatch.outline (h : w.ReceivesInBatch setup events last) (quiet : w.Quiet)
    (rests : w.agenda = []) (batches : setup.batchInterval ≠ 0) :
    last.store.outline = w.store.outline.after setup.conventions
      fun name => (w.store.batch.queue ++ events).flatMap (·.on name) := by
  obtain ⟨hreceives, hcloses, hact, hsettles⟩ := h
  obtain ⟨hquiet, houtline, hqueue⟩ := hreceives.queue_of_batching quiet rests batches
  have hrests := hreceives.rests rests
  rcases hcloses with rfl | rfl
  · obtain ⟨-, hlast, -⟩ := hquiet.act_settles (a := .flush) hrests trivial hact hsettles
    rw [hlast, houtline]
    simp only [changesOn_errands, Batch.queuedOn, hqueue]
  · obtain ⟨-, hlast, -⟩ := hquiet.act_settles (a := .timedOut _) hrests trivial hact hsettles
    rw [hlast, houtline]
    simp only [changesOn_errands, if_true, Batch.queuedOn, hqueue]

end World

/-- Whatever the state of a store when nothing is going on: if the events that wait and the events
that arrive are applied as one batch, the store ends up as if each of them were applied at once. It
holds the same entities, memberships and results, which are those of merging the events of every
service in their order. All that may differ is what listeners have been told and where the fetches
stand of queries that are fetched again whenever something changes. Both ways there is an end, if
nobody who is called calls back. -/
theorem Run.batch_agrees_with_events {origin : Setup} {history : List Happening} {w : World}
    (run : Run origin history w) (rests : w.agenda = []) {setup : Setup}
    (batches : setup.batchInterval ≠ 0) (events : List Event) :
    (∃ now, w.Receives { setup with batchInterval := 0 } (w.store.batch.queue ++ events) now) ∧
    (∃ later, w.ReceivesInBatch setup events later) ∧
    ∀ now later,
      w.Receives { setup with batchInterval := 0 } (w.store.batch.queue ++ events) now →
      w.ReceivesInBatch setup events later →
      later.store.Matches now.store ∧ ∀ name, (later.store.service name).Matches
        ((w.store.service name).mergeAll setup.conventions
          ((w.store.batch.queue ++ events).flatMap (·.on name))).service := by
  have hquiet : w.Quiet := .of_rests run.lives rests
  refine ⟨World.exists_receives rests _, World.exists_receivesInBatch rests events, ?_⟩
  intro now later hnow hlater
  have hbatch := hlater.outline hquiet rests batches
  refine ⟨Store.matches_of_outline ?_, fun name => Service.matches_of_outline ?_⟩
  · rw [hbatch, hnow.outline_of_immediate hquiet rests rfl]
  · rw [Service.outline_mergeAll]
    exact congrArg (·.service name) hbatch

namespace Notes

def bringing : List Event :=
  [⟨"notes", .created, note 2 200 "idea"⟩, ⟨"tags", .created, note 1 200 "new"⟩,
    ⟨"notes", .updated, note 1 300 "done"⟩]

def arriving (setup : Setup) (w : World) (event : Event) : World :=
  (w.play setup [.emit event]).play setup [.goOn, .goOn, .giveBack]

def oneByOne : World := bringing.foldl (arriving { batchInterval := 0 }) opened

def waitingAll : World := bringing.foldl (arriving {}) opened

def inBatch : World :=
  (waitingAll.play {} [.flush]).play {} [.goOn, .goOn, .giveBack, .goOn]

theorem receives_arriving {setup : Setup} {w last : World} {event : Event} {events : List Event}
    (comes : (w.act? setup (.emit event)).map (·.2.isNone) = some true)
    (rests : (arriving setup w event).agenda.isEmpty = true)
    (others : (arriving setup w event).Receives setup events last) :
    w.Receives setup (event :: events) last :=
  .event (World.act?_eq_play comes)
    (World.settles_play (by simp) (List.isEmpty_iff.mp rests)) others

/-- One by one or as a batch, the events leave the second note as the only idea. The batch takes
fewer notifications. -/
theorem batch_leaves_second_note :
    (∃ history, Run {} history opened) ∧
      opened.Receives { batchInterval := 0 } bringing oneByOne ∧
      opened.ReceivesInBatch {} bringing inBatch ∧ inBatch.store.Matches oneByOne.store ∧
      (inBatch.store.query? ideas.id).map (fun q =>
        Service.idsOf Conventions.standard q.state.shown) = some [.int 2] ∧
      inBatch.store.transitions < oneByOne.store.transitions := by
  obtain ⟨history, hrun⟩ := run_opened
  have hrests : opened.agenda = [] := List.isEmpty_iff.mp (by decide +kernel)
  have hqueue : opened.store.batch.queue = [] := List.isEmpty_iff.mp (by decide +kernel)
  have hnow : opened.Receives { batchInterval := 0 } bringing oneByOne :=
    receives_arriving (by decide +kernel) (by decide +kernel)
      (receives_arriving (by decide +kernel) (by decide +kernel)
        (receives_arriving (by decide +kernel) (by decide +kernel) .none))
  have hwaiting : opened.Receives {} bringing waitingAll :=
    receives_arriving (by decide +kernel) (by decide +kernel)
      (receives_arriving (by decide +kernel) (by decide +kernel)
        (receives_arriving (by decide +kernel) (by decide +kernel) .none))
  have hlater : opened.ReceivesInBatch {} bringing inBatch :=
    .closed hwaiting (Or.inl rfl) (World.act?_eq_play (by decide +kernel))
      (World.settles_play (by simp) (List.isEmpty_iff.mp (by decide +kernel)))
  obtain ⟨-, -, hmatches⟩ := Run.batch_agrees_with_events hrun hrests
    (show ({} : Setup).batchInterval ≠ 0 by decide) bringing
  rw [hqueue, List.nil_append] at hmatches
  exact ⟨⟨history, hrun⟩, hnow, hlater, (hmatches _ _ hnow hlater).1, by decide +kernel,
    by decide +kernel⟩

end Notes

end LiveQuery
