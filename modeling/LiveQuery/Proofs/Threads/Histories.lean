import LiveQuery.Proofs.Store.Notices
import LiveQuery.Store.Threads

/-!
# Histories of several threads

Which thread has a piece of work to do makes no difference to what comes of it. So what is said of
all threads is said of the pieces that any of them has left (`Threads.pieces`): a step takes one of
them away, or none, and brings those that it plans (`Threads.Step.Occurs.pieces`). To the store a
step is a transition (`Threads.Step.Occurs.transition`).
-/

namespace LiveQuery

def Piece.work? : Piece → Option Work
  | .work job => some job
  | _ => none

def Shared.transition (setup : Setup) (m : Shared) (agenda : List Piece) : Act → Store × List Work
  | .materialize ref => m.store.materialize setup ref
  | .subscribe query => (m.store.subscribe query).2
  | .unsubscribe query listener vacuum => m.store.unsubscribe setup query listener vacuum
  | .refetch query => m.store.refetch query
  | .watch => (m.store.watch.2, [])
  | .unwatch listener => (m.store.unwatch listener, [])
  | .emit event =>
    if setup.batchInterval = 0 then m.store.apply setup event.service [event.change]
    else ({ m.store with batch := m.store.batch.send event }, [])
  | .flush => ({ m.store with batch := m.store.batch.close }, [])
  | .mutated service change => m.store.apply setup service [change]
  | .answered query epoch answer =>
    match m.requests.find? (·.isFor query epoch) with
    | some request => m.store.complete setup request answer
    | none => (m.store, [])
  | .timedOut window =>
    if window = m.store.batch.window then
      ({ m.store with batch := m.store.batch.close }, [])
    else (m.store, [])
  | .goOn =>
    match agenda with
    | .work job :: _ => ((m.store.run setup job).1, (m.store.run setup job).2.1)
    | .schedule :: _ => ({ m.store with batch := m.store.batch.schedule }, [])
    | .unschedule :: _ => ({ m.store with batch := m.store.batch.unschedule }, [])
    | .take taken :: _ =>
      match m.store.batch.queue with
      | [] => (m.store, Store.applyEvents taken)
      | _ :: queue => ({ m.store with batch := { m.store.batch with queue } }, [])
    | _ => (m.store, [])
  | .tick _ | .giveBack => (m.store, [])

theorem filterMap_work?_map (work : List Work) :
    (work.map Piece.work).filterMap Piece.work? = work := by
  rw [List.filterMap_map]
  exact List.filterMap_some

theorem Shared.ask_eq (m : Shared) (signal : Signal) :
    (m.ask signal).shared.store = m.store ∧
      (m.ask signal).planned.filterMap Piece.work? = [] := by
  cases signal <;> exact ⟨rfl, rfl⟩

theorem Shared.planned_work (setup : Setup) (m : Shared) (job : Work) :
    (m.perform setup (.work job)).planned =
      ((m.store.run setup job).2.2.map (Piece.ask job)).toList ++
        (m.store.run setup job).2.1.map Piece.work := rfl

theorem Shared.transition_of_act {setup : Setup} {m : Shared} {agenda : List Piece} {a : Act}
    {outcome : Outcome} (h : m.act? setup agenda a = some outcome) :
    outcome.shared.store = (m.transition setup agenda a).1 ∧
      outcome.planned.filterMap Piece.work? = (m.transition setup agenda a).2 := by
  cases a with
  | materialize | subscribe | unsubscribe | refetch | mutated =>
    obtain ⟨-, h⟩ := Option.ite_none_right_eq_some.mp h
    cases h
    exact ⟨rfl, filterMap_work?_map _⟩
  | watch | unwatch | flush =>
    obtain ⟨-, h⟩ := Option.ite_none_right_eq_some.mp h
    cases h
    exact ⟨rfl, rfl⟩
  | emit event =>
    obtain ⟨-, h⟩ := Option.ite_none_right_eq_some.mp h
    unfold transition
    dsimp only
    split at h
    · next hnow =>
      cases h
      rw [if_pos hnow]
      exact ⟨rfl, filterMap_work?_map _⟩
    · next hlater =>
      cases h
      rw [if_neg hlater]
      exact ⟨rfl, rfl⟩
  | answered query epoch answer =>
    simp only [act?] at h
    split at h
    · next request hfind =>
      obtain ⟨-, h⟩ := Option.ite_none_right_eq_some.mp h
      cases h
      simp only [transition, hfind]
      exact ⟨rfl, filterMap_work?_map _⟩
    · cases h
  | timedOut window =>
    simp only [act?] at h
    split at h
    · obtain ⟨-, h⟩ := Option.ite_none_right_eq_some.mp h
      cases h
      unfold transition
      dsimp only
      split <;> exact ⟨rfl, rfl⟩
    · cases h
  | tick =>
    cases h
    exact ⟨rfl, rfl⟩
  | goOn =>
    cases agenda with
    | nil => cases h
    | cons piece rest =>
      cases piece with
      | outside => cases h
      | work job =>
        cases h
        refine ⟨rfl, ?_⟩
        rw [planned_work, List.filterMap_append, filterMap_work?_map]
        generalize (m.store.run setup job).2.2 = signal
        cases signal <;> rfl
      | ask job signal =>
        cases h
        exact m.ask_eq signal
      | setTimer window =>
        cases h
        exact m.ask_eq _
      | schedule =>
        cases h
        refine ⟨rfl, ?_⟩
        show List.filterMap Piece.work? (if m.store.batch.scheduled then [] else [.number]) = []
        split <;> rfl
      | number | unschedule =>
        cases h
        exact ⟨rfl, rfl⟩
      | take taken =>
        cases h
        simp only [transition, perform]
        cases m.store.batch.queue with
        | nil => exact ⟨rfl, filterMap_work?_map _⟩
        | cons => exact ⟨rfl, rfl⟩
  | giveBack =>
    simp only [act?] at h
    split at h
    · cases h
      exact ⟨rfl, rfl⟩
    · cases h

/-! ## Fetches -/

/-- The fetch that a piece is going to hand out. -/
def Piece.launched : Piece → List Request
  | .work job => job.launched?.toList
  | .ask _ signal => signal.fetched
  | _ => []

/-- The fetches that some pieces are going to hand out. -/
def launchedBy (pieces : List Piece) : Multiset Request := ↑(pieces.flatMap Piece.launched)

theorem launchedBy_append (pieces more : List Piece) :
    launchedBy (pieces ++ more) = launchedBy pieces + launchedBy more := by
  rw [launchedBy, List.flatMap_append]
  rfl

theorem launchedBy_map (work : List Work) : launchedBy (work.map .work) = launches work := by
  rw [launchedBy, launches, List.flatMap_map, List.filterMap_eq_flatMap_toList]
  rfl

theorem launchedBy_perm {pieces others : List Piece} (h : pieces.Perm others) :
    launchedBy pieces = launchedBy others :=
  Multiset.coe_eq_coe.mpr (h.flatMap_right _)

def Act.done : Act → List Piece → List Piece
  | .goOn, agenda => agenda.take 1
  | .giveBack, agenda => agenda.take 1
  | _, _ => []

theorem Act.done_append_rest (a : Act) (agenda : List Piece) :
    a.done agenda ++ a.rest agenda = agenda := by
  cases a with
  | goOn | giveBack => cases agenda <;> rfl
  | materialize | subscribe | unsubscribe | refetch | watch | unwatch | emit | flush | mutated
  | answered | timedOut | tick => rfl

theorem Act.done_eq_of_mem {a : Act} {agenda : List Piece} {p : Piece} (h : p ∈ a.done agenda) :
    a.done agenda = [p] := by
  cases agenda with
  | nil => cases a <;> cases h
  | cons first rest =>
    cases a with
    | goOn | giveBack =>
      obtain rfl := List.mem_singleton.mp h
      rfl
    | materialize | subscribe | unsubscribe | refetch | watch | unwatch | emit | flush | mutated
    | answered | timedOut | tick => cases h

namespace Shared

variable {setup : Setup} {m : Shared} {agenda : List Piece} {a : Act} {outcome : Outcome}
variable {rest : Multiset Request} {next : Store × List Work}

/-- Do some moves take the cache from before a step to after it, whatever fetches other threads are
going to hand out? Only those who leave make queries end. -/
def Steps (setup : Setup) (m : Shared) (agenda : List Piece) (a : Act) (outcome : Outcome)
    (rest : Multiset Request) : Prop :=
  ∃ moves, (∀ x, .vacuumed x ∈ moves → ∃ listener vacuum, a = .unsubscribe x listener vacuum) ∧
    Cache.Steps setup (m.store.cache (launchedBy (a.done agenda) + (↑m.requests + rest))) moves
      (outcome.shared.store.cache
        (launchedBy outcome.planned + (↑outcome.shared.requests + rest)))

theorem steps_make {own : Move → Prop} (moves : m.store.MovesBy setup own next)
    (idle : a.done agenda = [])
    (ends : ∀ x, own (.vacuumed x) → ∃ listener vacuum, a = .unsubscribe x listener vacuum) :
    m.Steps setup agenda a (m.make next) rest := by
  obtain ⟨move?, hown, hmoves⟩ := moves
  refine ⟨move?.toList, fun x hx => ends x (hown _ (Option.mem_toList.mp hx)), ?_⟩
  have hnone : launchedBy (a.done agenda) = 0 := by
    rw [idle]
    rfl
  rw [hnone, zero_add]
  show Cache.Steps setup _ _ (next.1.cache (launchedBy (next.2.map .work) + (↑m.requests + rest)))
  rw [launchedBy_map]
  exact hmoves _

theorem steps_apply {name : String} {changes : List Change} (idle : a.done agenda = []) :
    m.Steps setup agenda a (m.make (m.store.apply setup name changes)) rest := by
  refine ⟨[.merged name changes], fun x hx => by simp at hx, ?_⟩
  have hnone : launchedBy (a.done agenda) = 0 := by
    rw [idle]
    rfl
  rw [hnone, zero_add]
  show Cache.Steps setup _ _ ((m.store.apply setup name changes).1.cache
    (launchedBy ((m.store.apply setup name changes).2.map .work) + (↑m.requests + rest)))
  rw [launchedBy_map]
  exact Store.moves_apply name changes _

theorem steps_of_still (cache : ∀ rest, outcome.shared.store.cache rest = m.store.cache rest)
    (fetches : launchedBy outcome.planned + ↑outcome.shared.requests =
      launchedBy (a.done agenda) + ↑m.requests) : m.Steps setup agenda a outcome rest := by
  refine ⟨[], fun x hx => by simp at hx, ?_⟩
  rw [← add_assoc, ← add_assoc, fetches, cache]
  exact .refl _

theorem steps_ask {job : Work} {signal : Signal} {others : List Piece} :
    m.Steps setup (.ask job signal :: others) .goOn (m.ask signal) rest := by
  refine steps_of_still (fun _ => by rw [(m.ask_eq signal).1]) ?_
  cases signal with
  | fetch request =>
    show launchedBy [] + (↑(m.requests ++ [request]) : Multiset Request) = _
    rw [← Multiset.coe_add, add_comm (m.requests : Multiset Request)]
    rfl
  | call | timer | bind | unbind => rfl

theorem steps_of_act
    (lives : (m.store.cache (launchedBy (a.done agenda) + (↑m.requests + rest))).Lives)
    (h : m.act? setup agenda a = some outcome) : m.Steps setup agenda a outcome rest := by
  cases a with
  | materialize ref =>
    obtain ⟨-, h⟩ := Option.ite_none_right_eq_some.mp h
    cases h
    exact steps_make (Store.movesBy_materialize ref) rfl nofun
  | subscribe query =>
    obtain ⟨-, h⟩ := Option.ite_none_right_eq_some.mp h
    cases h
    exact steps_make Store.movesBy_subscribe rfl fun _ => False.elim
  | unsubscribe query listener vacuum =>
    obtain ⟨-, h⟩ := Option.ite_none_right_eq_some.mp h
    cases h
    refine steps_make (Store.movesBy_unsubscribe listener vacuum) rfl fun x hx => ?_
    cases hx
    exact ⟨listener, vacuum, rfl⟩
  | refetch query =>
    obtain ⟨-, h⟩ := Option.ite_none_right_eq_some.mp h
    cases h
    refine steps_make Store.movesBy_refetch rfl fun x hx => ?_
    rcases hx with hx | hx
    · exact hx.elim
    · cases hx
  | watch | unwatch =>
    obtain ⟨-, h⟩ := Option.ite_none_right_eq_some.mp h
    cases h
    exact steps_of_still (fun _ => rfl) rfl
  | emit event =>
    obtain ⟨-, h⟩ := Option.ite_none_right_eq_some.mp h
    split at h
    · cases h
      exact steps_apply rfl
    · cases h
      exact steps_of_still (fun _ => rfl) rfl
  | flush =>
    obtain ⟨-, h⟩ := Option.ite_none_right_eq_some.mp h
    cases h
    exact steps_of_still (fun _ => rfl) rfl
  | mutated service change =>
    obtain ⟨-, h⟩ := Option.ite_none_right_eq_some.mp h
    cases h
    exact steps_apply rfl
  | answered query epoch answer =>
    simp only [act?] at h
    split at h
    · next request hfind =>
      obtain ⟨⟨-, hfits⟩, h⟩ := Option.ite_none_right_eq_some.mp h
      cases h
      have hbegun : launchedBy ((Act.answered query epoch answer).done agenda) +
          (↑m.requests + rest) =
          request ::ₘ (↑(m.requests.eraseP (·.isFor query epoch)) + rest) := by
        rw [requests_eq_cons hfind, Multiset.cons_add]
        exact zero_add _
      rw [hbegun] at lives
      obtain ⟨own, hown, hsteps⟩ : ∃ own : Option Move, _ ∧ Cache.Steps setup _ _ _ :=
        Store.steps_complete lives hfits
      refine ⟨.answered request answer :: own.toList, fun x hx => ?_, ?_⟩
      · rcases List.mem_cons.mp hx with hx | hx
        · cases hx
        · exact (hown _ (Option.mem_toList.mp hx)).elim
      · rw [hbegun]
        show Cache.Steps setup _ _ ((m.store.complete setup request answer).1.cache
          (launchedBy ((m.store.complete setup request answer).2.map .work) + _))
        rw [launchedBy_map]
        exact hsteps
    · cases h
  | timedOut window =>
    simp only [act?] at h
    split at h
    · obtain ⟨-, h⟩ := Option.ite_none_right_eq_some.mp h
      cases h
      split <;> exact steps_of_still (fun _ => rfl) rfl
    · cases h
  | tick milliseconds =>
    cases h
    exact steps_of_still (fun _ => rfl) rfl
  | goOn =>
    cases agenda with
    | nil => cases h
    | cons piece others =>
      cases piece with
      | outside => cases h
      | work job =>
        cases h
        obtain ⟨own, hown, hsteps⟩ : ∃ own : Option Move, _ ∧ ∀ rest, Cache.Steps setup _ _ _ :=
          m.store.moves_run job
        refine ⟨job.reaching ++ own.toList, fun x hx => ?_, ?_⟩
        · rcases List.mem_append.mp hx with hx | hx
          · cases job <;> simp [Work.reaching] at hx
          · obtain ⟨query, -, hbegins | hdefers⟩ := hown _ (Option.mem_toList.mp hx)
            · exact hbegins.elim
            · cases hdefers
        · have hdone : launchedBy (Act.goOn.done (.work job :: others)) =
              ↑job.launched?.toList := congrArg Multiset.ofList (List.append_nil _)
          have hasked : launchedBy ((m.store.run setup job).2.2.map (Piece.ask job)).toList =
              ↑((m.store.run setup job).2.2.toList.flatMap Signal.fetched) := by
            generalize (m.store.run setup job).2.2 = signal
            cases signal <;> rfl
          have hplanned : launchedBy (m.perform setup (.work job)).planned +
              (↑m.requests + rest) = launches (m.store.run setup job).2.1 +
                (↑((m.store.run setup job).2.2.toList.flatMap Signal.fetched) +
                  (↑m.requests + rest)) := by
            rw [planned_work, launchedBy_append, launchedBy_map, hasked, add_assoc, add_left_comm]
          rw [hdone]
          show Cache.Steps setup _ _ ((m.store.run setup job).1.cache
            (launchedBy (m.perform setup (.work job)).planned + (↑m.requests + rest)))
          rw [hplanned]
          exact hsteps _
      | ask job signal =>
        cases h
        exact steps_ask
      | schedule =>
        cases h
        refine steps_of_still (fun _ => rfl) ?_
        show launchedBy (if m.store.batch.scheduled then [] else [.number]) + _ = _
        split <;> rfl
      | number | unschedule =>
        cases h
        exact steps_of_still (fun _ => rfl) rfl
      | setTimer window =>
        cases h
        exact steps_of_still (fun _ => rfl) rfl
      | take taken =>
        cases h
        simp only [perform]
        cases m.store.batch.queue with
        | nil =>
          refine steps_of_still (fun _ => rfl) ?_
          show launchedBy ((Store.applyEvents taken).map .work) + _ = _
          rw [launchedBy_map, launches_eq_zero (Store.launched?_applyEvents taken)]
          rfl
        | cons => exact steps_of_still (fun _ => rfl) rfl
  | giveBack =>
    simp only [act?] at h
    split at h
    · cases h
      exact steps_of_still (fun _ => rfl) rfl
    · cases h

end Shared

namespace Threads

def pieces (w : Threads) : List Piece := w.agendas.flatten

def outstanding (w : Threads) : Multiset Request := launchedBy w.pieces + ↑w.requests

def cache (w : Threads) : Cache := w.store.cache w.outstanding

theorem flatten_perm {agendas : List (List Piece)} {n : Nat} {agenda : List Piece}
    (h : agendas[n]? = some agenda) :
    agendas.flatten.Perm (agenda ++ (agendas.eraseIdx n).flatten) := by
  obtain ⟨hlt, rfl⟩ := List.getElem?_eq_some_iff.mp h
  exact (List.getElem_cons_eraseIdx_perm hlt).symm.flatten

theorem flatten_set_perm {agendas : List (List Piece)} {n : Nat} {agenda : List Piece}
    (h : agendas[n]? = some agenda) (new : List Piece) :
    (agendas.set n new).flatten.Perm (new ++ (agendas.eraseIdx n).flatten) := by
  obtain ⟨hlt, -⟩ := List.getElem?_eq_some_iff.mp h
  have hperm := flatten_perm (List.getElem?_set_self (a := new) hlt)
  rwa [List.eraseIdx_set_eq] at hperm

namespace Step

def agenda (h : Step) : List Piece := (h.before.agendas[h.thread]?).getD []

def done (h : Step) : List Piece := h.act.done h.agenda

def others (h : Step) : List Piece := (h.before.agendas.eraseIdx h.thread).flatten

/-- What is left to do after a step, besides what is planned in it. -/
def kept (h : Step) : List Piece := h.act.rest h.agenda ++ h.others

/-- Can a step be taken, where lives are in order? -/
structure Occurs (setup : Setup) (h : Step) : Prop where
  lives : h.before.cache.Lives
  act : h.before.act? setup h.thread h.act = some (h.after, h.outcome)

namespace Occurs

variable {setup : Setup} {h : Step}

theorem outcome (occurs : h.Occurs setup) :
    h.before.agendas[h.thread]? = some h.agenda ∧
      h.before.toShared.act? setup h.agenda h.act = some h.outcome ∧
      h.after = ⟨h.outcome.shared,
        h.before.agendas.set h.thread (h.outcome.planned ++ h.act.rest h.agenda)⟩ := by
  obtain ⟨agenda, hagenda, hact⟩ := Option.bind_eq_some_iff.mp occurs.act
  obtain ⟨outcome, houtcome, hafter⟩ := Option.bind_eq_some_iff.mp hact
  obtain ⟨hafter, rfl⟩ := Prod.mk.inj (Option.some.inj hafter)
  have hown : h.agenda = agenda := by
    rw [Step.agenda, hagenda]
    rfl
  rw [hown]
  exact ⟨hagenda, houtcome, hafter.symm⟩

theorem shared (occurs : h.Occurs setup) : h.after.toShared = h.outcome.shared := by
  rw [occurs.outcome.2.2]

theorem pieces (occurs : h.Occurs setup) :
    h.before.pieces.Perm (h.done ++ h.kept) ∧
      h.after.pieces.Perm (h.outcome.planned ++ h.kept) := by
  obtain ⟨hagenda, -, hafter⟩ := occurs.outcome
  constructor
  · rw [done, kept, ← List.append_assoc, Act.done_append_rest]
    exact flatten_perm hagenda
  · rw [kept, ← List.append_assoc, Threads.pieces, hafter]
    exact flatten_set_perm hagenda _

theorem transition (occurs : h.Occurs setup) :
    h.after.store = (h.before.toShared.transition setup h.agenda h.act).1 ∧
      h.outcome.planned.filterMap Piece.work? =
        (h.before.toShared.transition setup h.agenda h.act).2 := by
  have hstore : h.after.store = h.outcome.shared.store := congrArg Shared.store occurs.shared
  rw [hstore]
  exact Shared.transition_of_act occurs.outcome.2.1

theorem steps (occurs : h.Occurs setup) : ∃ moves,
    (∀ x, .vacuumed x ∈ moves → ∃ listener vacuum, h.act = .unsubscribe x listener vacuum) ∧
      Cache.Steps setup h.before.cache moves h.after.cache := by
  obtain ⟨hbefore, hafter⟩ := occurs.pieces
  have hcache : ∀ {w : Threads} {pieces : List Piece}, w.pieces.Perm (pieces ++ h.kept) →
      w.cache = w.store.cache (launchedBy pieces + (↑w.requests + launchedBy h.kept)) := by
    intro w pieces hperm
    rw [cache, outstanding, launchedBy_perm hperm, launchedBy_append, add_assoc,
      add_comm (launchedBy h.kept)]
  have hlives := occurs.lives
  rw [hcache hbefore] at hlives
  have hsteps := Shared.steps_of_act hlives occurs.outcome.2.1
  rw [hcache hbefore, hcache hafter, occurs.shared]
  exact hsteps

theorem lives_after (occurs : h.Occurs setup) : h.after.cache.Lives := by
  obtain ⟨moves, -, hsteps⟩ := occurs.steps
  exact occurs.lives.steps hsteps

theorem lives_on (occurs : h.Occurs setup) {query : QueryId} {p : Query}
    (before : h.before.store.query? query = some p)
    (listened : h.after.store.hasListener query = true) :
    ∃ q, h.after.store.query? query = some q ∧ q.life = p.life := by
  obtain ⟨moves, hends, hsteps⟩ := occurs.steps
  obtain ⟨name, hp⟩ := occurs.lives.query?_eq_some.mp (Store.query?_cache.trans before)
  by_cases hleaves : .vacuumed query ∈ moves
  · obtain ⟨listener, vacuum, hact⟩ := hends query hleaves
    obtain ⟨hstore, -⟩ := occurs.transition
    rw [hact, Shared.transition] at hstore
    rw [hstore] at listened ⊢
    exact ⟨p, (Store.query?_unsubscribe_of_listened listened query).trans before, rfl⟩
  · obtain ⟨q, hq, hlife⟩ := hsteps.life_of_not_vacuumed occurs.lives hleaves hp
    exact ⟨q, Store.query?_cache.symm.trans (occurs.lives_after.query?_eq_some.mpr ⟨name, hq⟩),
      hlife⟩

end Occurs

end Step

/-! ## Runs -/

variable {setup : Setup} {threads : Nat} {history since : List Step} {w : Threads} {h : Step}

theorem pieces_replicate (n : Nat) :
    pieces { agendas := List.replicate n [] } = [] :=
  List.flatten_eq_nil_iff.mpr fun _ hmem => (List.mem_replicate.mp hmem).2

theorem run_nil : Run setup threads [] w ↔ w = { agendas := List.replicate threads [] } := by
  constructor
  · intro h
    generalize hall : ([] : List Step) = all at h
    cases h with
    | start => rfl
    | act => simp at hall
  · rintro rfl
    exact .start

theorem run_concat {last : Step} :
    Run setup threads (history ++ [last]) w ↔ Run setup threads history last.before ∧
      last.before.act? setup last.thread last.act = some (last.after, last.outcome) ∧
      w = last.after := by
  constructor
  · intro h
    generalize hall : history ++ [last] = all at h
    cases h with
    | start => simp at hall
    | act hrun hact =>
      obtain ⟨rfl, hlast⟩ := List.append_inj' hall rfl
      cases hlast
      exact ⟨hrun, hact, rfl⟩
  · rintro ⟨hrun, hact, rfl⟩
    exact .act hrun hact

theorem Run.lives (run : Run setup threads history w) : w.cache.Lives := by
  induction run with
  | start =>
    have hnone : cache { agendas := List.replicate threads [] } = ({} : World).cache := by
      rw [cache, outstanding, pieces_replicate]
      rfl
    rw [hnone]
    exact (LiveQuery.Run.start : LiveQuery.Run setup [] {}).lives
  | @act _ w w' thread a outcome _ hact ih =>
    exact Step.Occurs.lives_after (h := ⟨w, thread, a, outcome, w'⟩) ⟨ih, hact⟩

theorem Run.concat (run : Run setup threads (history ++ [h]) w) :
    Run setup threads history h.before ∧ h.Occurs setup ∧ w = h.after := by
  obtain ⟨hrun, hact, hw⟩ := run_concat.mp run
  exact ⟨hrun, ⟨hrun.lives, hact⟩, hw⟩

theorem Run.occurs (run : Run setup threads history w) : ∀ h ∈ history, h.Occurs setup := by
  induction history using List.reverseRecOn generalizing w with
  | nil => exact List.forall_mem_nil _
  | append_singleton history last ih =>
    obtain ⟨hrun, hoccurs, -⟩ := run.concat
    rw [List.forall_mem_append]
    exact ⟨ih hrun, List.forall_mem_singleton.mpr hoccurs⟩

/-- A run has come to each step that has been taken. -/
theorem Run.until {before : List Step} (run : Run setup threads (before ++ h :: since) w) :
    Run setup threads (before ++ [h]) h.after := by
  induction since using List.reverseRecOn generalizing w with
  | nil =>
    obtain ⟨-, -, rfl⟩ := run.concat
    exact run
  | append_singleton since last ih =>
    rw [← List.cons_append, ← List.append_assoc] at run
    exact ih run.concat.1

def play (setup : Setup) (w : Threads) (acts : List (Nat × Act)) : Threads :=
  acts.foldl (fun w a => ((w.act? setup a.1 a.2).map Prod.fst).getD w) w

/-- The steps that are taken when acts are tried one after the other. -/
def played (setup : Setup) (w : Threads) : List (Nat × Act) → List Step
  | [] => []
  | (thread, a) :: acts =>
    match w.act? setup thread a with
    | some (w', outcome) => ⟨w, thread, a, outcome, w'⟩ :: w'.played setup acts
    | none => w.played setup acts

theorem Run.play (run : Run setup threads history w) (acts : List (Nat × Act)) :
    Run setup threads (history ++ w.played setup acts) (w.play setup acts) := by
  induction acts generalizing history w with
  | nil => simpa [played, Threads.play] using run
  | cons a acts ih =>
    obtain ⟨thread, a⟩ := a
    unfold played Threads.play
    rw [List.foldl_cons]
    cases hact : w.act? setup thread a with
    | none => exact ih run
    | some next =>
      have hnext := ih (.act run hact)
      rwa [List.append_assoc] at hnext

/-- An act that can happen at its turn is a step of those that are taken. -/
theorem exists_played {acts more : List (Nat × Act)} {thread : Nat} {a : Act}
    (happens : ((w.play setup acts).act? setup thread a).isSome = true) :
    ∃ h : Step, w.played setup (acts ++ (thread, a) :: more) =
        w.played setup acts ++ h :: h.after.played setup more ∧
      h.before = w.play setup acts ∧ h.thread = thread ∧ h.act = a ∧
      h.after = w.play setup (acts ++ [(thread, a)]) := by
  induction acts generalizing w with
  | nil =>
    obtain ⟨⟨w', outcome⟩, hact⟩ := Option.isSome_iff_exists.mp happens
    have hact : w.act? setup thread a = some (w', outcome) := hact
    refine ⟨⟨w, thread, a, outcome, w'⟩, ?_, rfl, rfl, rfl, ?_⟩
    · dsimp only [List.nil_append, played]
      rw [hact]
    · simp [play, hact]
  | cons first acts ih =>
    obtain ⟨k, b⟩ := first
    have hplay : ∀ others, w.play setup ((k, b) :: others) =
        (((w.act? setup k b).map Prod.fst).getD w).play setup others := fun _ => rfl
    rw [hplay] at happens
    obtain ⟨h, hplayed, hbefore, hthread, hact, hafter⟩ := ih happens
    refine ⟨h, ?_, hbefore, hthread, hact, hafter⟩
    rw [List.cons_append, played, played]
    cases hfirst : w.act? setup k b with
    | none =>
      rw [hfirst] at hplayed
      exact hplayed
    | some next =>
      rw [hfirst] at hplayed
      exact congrArg (_ :: ·) hplayed

end Threads

def Notes.two : Threads := { agendas := List.replicate 2 [] }

end LiveQuery
