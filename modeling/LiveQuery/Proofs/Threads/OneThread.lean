import LiveQuery.Proofs.Threads.Calls
import LiveQuery.Proofs.Threads.Windows

/-!
# A single thread

A `World` does in one go what a thread does step by step: it fixes the deadline of a timer when an
event opens a window, it takes all that waits when the window is closed, and it has nobody come
between the decision to call a listener and the call. Whenever the outside has control of a world,
one thread can have come to the same state, and has asked the same of the outside in the same order
(`Run.alone`). One thread does not come between its own steps. So what is said of threads that keep
apart is true of it (`Threads.Run.not_overtakes`, `Threads.Run.not_overlaps`).
-/

namespace LiveQuery

/-- What a thread has to do where a world has a turn to take. -/
def Turn.piece : Turn → Piece
  | .work (.startTimer window _) => .setTimer window
  | .work job => .work job
  | .outside => .outside

namespace World

def shared (w : World) : Shared where
  store := w.store
  clock := w.clock
  requests := w.requests
  timers := w.timers

def pieces (w : World) : List Piece := w.agenda.map Turn.piece

def alone (w : World) : Threads := { w.shared with agendas := [w.pieces] }

end World

def signalsIn (history : List Happening) : List Signal := history.flatMap (·.signal.toList)

def Threads.signalsIn (history : List Step) : List Signal :=
  history.flatMap (·.outcome.signal.toList)

/-- Is something that happens made up of two acts, of which the second applies a change? -/
def Happening.isFirstHalf (setup : Setup) (h : Happening) : Bool :=
  match h.act with
  | .mutated _ _ => true
  | .emit _ => setup.batchInterval = 0
  | _ => false

/-- The world that a history leads to, or the one before a change that is still to be applied. -/
def World.came (setup : Setup) (w : World) (history : List Happening) : World :=
  match history.getLast? with
  | some h => if h.isFirstHalf setup then h.before else w
  | none => w

namespace Shared

/-- Can a thread come from a state and some pieces to others, and what does it ask of the outside on
the way? -/
inductive Comes (setup : Setup) : Shared → List Piece → List Signal → Shared → List Piece → Prop
  where
  | rest {m : Shared} {agenda : List Piece} : Comes setup m agenda [] m agenda
  | act {m m' : Shared} {agenda agenda' : List Piece} {a : Act} {outcome : Outcome}
      {signals : List Signal} (happens : m.act? setup agenda a = some outcome)
      (next : Comes setup outcome.shared (outcome.planned ++ a.rest agenda) signals m' agenda') :
      Comes setup m agenda (outcome.signal.toList ++ signals) m' agenda'

variable {setup : Setup} {m m' : Shared} {agenda agenda' rest : List Piece} {a : Act}
variable {outcome : Outcome} {signals : List Signal}

theorem Comes.last (happens : m.act? setup agenda a = some outcome)
    (shared : outcome.shared = m') (pieces : outcome.planned ++ a.rest agenda = agenda') :
    Comes setup m agenda outcome.signal.toList m' agenda' := by
  subst shared pieces
  have hcomes : Comes setup m agenda (outcome.signal.toList ++ []) outcome.shared
      (outcome.planned ++ a.rest agenda) := .act happens .rest
  rwa [List.append_nil] at hcomes

theorem comes_take (taken : List Event) : Comes setup m (.take taken :: rest) []
    (m.withBatch { m.store.batch with queue := [] })
    ((Store.applyEvents (taken ++ m.store.batch.queue)).map .work ++ rest) := by
  generalize hqueue : m.store.batch.queue = queue
  induction queue generalizing m taken with
  | nil =>
    have hact : m.act? setup (.take taken :: rest) .goOn =
        some { shared := m, planned := (Store.applyEvents taken).map .work } := by
      simp only [act?, perform, hqueue]
    refine .last hact ?_ ?_
    · rw [← hqueue]
      rfl
    · rw [List.append_nil]
      rfl
  | cons event queue ih =>
    have hact : m.act? setup (.take taken :: rest) .goOn =
        some { shared := m.withBatch { m.store.batch with queue }
               planned := [.take (taken ++ [event])] } := by
      simp only [act?, perform, hqueue]
    have hnext := ih (m := m.withBatch { m.store.batch with queue }) (taken ++ [event]) rfl
    rw [List.append_assoc] at hnext
    exact .act hact hnext

theorem comes_close : Comes setup m.close.shared (m.close.planned ++ rest) []
    (m.withBatch m.store.batch.drain.2)
    ((Store.applyEvents m.store.batch.queue).map .work ++ rest) := by
  have hact : m.close.shared.act? setup (m.close.planned ++ rest) .goOn =
      some { shared := m.close.shared.withBatch m.close.shared.store.batch.unschedule } := rfl
  exact .act hact (comes_take [])

end Shared

namespace World

variable {setup : Setup} {w w' : World} {a : Act} {signal : Option Signal}

theorem isOpen_pieces : Shared.isOpen w.pieces = w.isOpen := by
  unfold pieces isOpen
  cases w.agenda with
  | nil => rfl
  | cons turn rest =>
    cases turn with
    | outside => rfl
    | work job => cases job <;> rfl

theorem piece_of_plain {job : Work} (plain : (Piece.work job).startsTimer = false) :
    (Turn.work job).piece = .work job := by
  cases job with
  | startTimer => cases plain
  | call | launch | refetch | apply | bind | keepBinding => rfl

theorem pieces_proceed {next : Store × List Work}
    (plain : ∀ p ∈ next.2.map Piece.work, p.startsTimer = false) :
    (w.proceed next).pieces = next.2.map .work ++ w.pieces := by
  have hplanned : (next.2.map Turn.work).map Turn.piece = next.2.map Piece.work := by
    rw [List.map_map]
    exact List.map_congr_left fun job hjob => piece_of_plain (plain _ (List.mem_map_of_mem hjob))
  rw [pieces, proceed, List.map_append, hplanned]
  rfl

theorem comes_make {next : Store × List Work}
    (happens : w.shared.act? setup w.pieces a = some (w.shared.make next))
    (keeps : a.rest w.pieces = w.pieces)
    (plain : ∀ p ∈ next.2.map Piece.work, p.startsTimer = false) :
    Shared.Comes setup w.shared w.pieces [] (w.proceed next).shared (w.proceed next).pieces := by
  refine .last happens rfl ?_
  rw [keeps, pieces_proceed plain]
  rfl

theorem plain_of_not_isErrand {work : List Work} (h : ∀ job ∈ work, job.isErrand = false) :
    ∀ p ∈ work.map Piece.work, p.startsTimer = false := fun p hp =>
  Shared.plain_of_isAside (Shared.isAside_map h p hp)

theorem plain_applyEvents (events : List Event) :
    ∀ p ∈ (Store.applyEvents events).map Piece.work, p.startsTimer = false := by
  intro p hp
  obtain ⟨job, hjob, rfl⟩ := List.mem_map.mp hp
  obtain ⟨group, -, rfl⟩ := List.mem_map.mp hjob
  rfl

theorem comes_flush : Shared.Comes setup w.shared.close.shared (w.shared.close.planned ++ w.pieces)
    [] (w.proceed w.store.flush).shared (w.proceed w.store.flush).pieces := by
  rw [pieces_proceed (plain_applyEvents _)]
  exact Shared.comes_close

theorem comes_emit {event : Event} (batches : setup.batchInterval ≠ 0) (isOpen : w.isOpen = true) :
    Shared.Comes setup w.shared w.pieces [] (w.proceed (w.store.emit setup w.clock event)).shared
      (w.proceed (w.store.emit setup w.clock event)).pieces := by
  have hsend : w.shared.act? setup w.pieces (.emit event) =
      some { shared := w.shared.withBatch (w.store.batch.send event), planned := [.schedule] } := by
    simp only [Shared.act?, isOpen_pieces, isOpen, if_true, if_neg batches]
    rfl
  refine .act hsend ?_
  have hschedule : (w.shared.withBatch (w.store.batch.send event)).act? setup
      (.schedule :: w.pieces) .goOn = some
        { shared := w.shared.withBatch (w.store.batch.send event).schedule
          planned := if w.store.batch.scheduled then [] else [.number] } := rfl
  refine .act hschedule ?_
  unfold Store.emit Batch.push
  rw [if_neg batches]
  cases hscheduled : w.store.batch.scheduled with
  | true => exact .rest
  | false =>
    have hnumber : (w.shared.withBatch (w.store.batch.send event).schedule).act? setup
        (.number :: w.pieces) .goOn = some
          { shared := w.shared.withBatch (w.store.batch.send event).schedule
            planned := [.setTimer w.store.batch.window] } := rfl
    exact .last hnumber rfl rfl

theorem plain_run (job : Work) :
    ∀ p ∈ (w.store.run setup job).2.1.map Piece.work, p.startsTimer = false := by
  cases job with
  | launch | startTimer => exact List.forall_mem_nil _
  | refetch => exact plain_of_not_isErrand Store.not_isErrand_refetch
  | apply name changes =>
    exact fun p hp => Shared.plain_of_isAside (Shared.isAside_apply name changes p hp)
  | call | bind | keepBinding =>
    dsimp only [Store.run]
    split <;> simp [Piece.startsTimer]

theorem comes_goOn {job : Work} {rest : List Turn} (agenda : w.agenda = .work job :: rest)
    (timely : ∀ window deadline, job = .startTimer window deadline →
      deadline = w.clock + setup.batchInterval)
    (h : w.act? setup .goOn = some (w', signal)) :
    Shared.Comes setup w.shared w.pieces signal.toList w'.shared w'.pieces := by
  simp only [act?, agenda] at h
  cases h
  cases hplain : (Piece.work job).startsTimer with
  | true =>
    obtain ⟨window, deadline, rfl⟩ : ∃ window deadline, job = .startTimer window deadline := by
      cases job with
      | startTimer window deadline => exact ⟨window, deadline, rfl⟩
      | call | launch | refetch | apply | bind | keepBinding => cases hplain
    have hact : w.shared.act? setup w.pieces .goOn = some
        (w.shared.ask (.timer window (w.clock + setup.batchInterval))) := by
      rw [pieces, agenda]
      rfl
    obtain rfl := timely window deadline rfl
    refine .last hact rfl ?_
    rw [pieces, agenda]
    rfl
  | false =>
    have hpieces : w.pieces = .work job :: rest.map Turn.piece := by
      rw [pieces, agenda, List.map_cons, piece_of_plain hplain]
    have hact : w.shared.act? setup w.pieces .goOn = some (w.shared.perform setup (.work job)) := by
      rw [hpieces]
      rfl
    have hmore : ∀ p ∈ (w.store.run setup job).2.1.map Piece.work, p.startsTimer = false :=
      plain_run job
    refine .act hact ?_
    rw [hpieces, Shared.planned_work]
    show Shared.Comes setup { w.shared with store := (w.store.run setup job).1 }
      (((w.store.run setup job).2.2.map (Piece.ask job)).toList ++
        (w.store.run setup job).2.1.map Piece.work ++ rest.map Turn.piece) _ _ _
    generalize w.store.run setup job = outcome at hmore ⊢
    obtain ⟨store, more, signal⟩ := outcome
    have hnext : ({ w with agenda := rest }.proceed (store, more)).pieces =
        more.map .work ++ rest.map Turn.piece := pieces_proceed hmore
    cases signal with
    | none =>
      show Shared.Comes setup _ (more.map .work ++ rest.map Turn.piece) [] _ _
      rw [← hnext]
      exact .rest
    | some signal =>
      have hask : { w.shared with store }.act? setup
          (.ask job signal :: (more.map Piece.work ++ rest.map Turn.piece)) .goOn =
            some ({ w.shared with store }.ask signal) := rfl
      cases signal with
      | call | bind =>
        refine .last hask rfl ?_
        exact congrArg (Piece.outside :: ·) hnext.symm
      | fetch | timer | unbind => exact .last hask rfl hnext.symm

/-- What a world does in an act that is not the first half of another, a thread does. -/
theorem comes_of_act (h : w.act? setup a = some (w', signal))
    (whole : (⟨w, a, signal, w'⟩ : Happening).isFirstHalf setup = false)
    (timely : ∀ window deadline, .work (.startTimer window deadline) ∈ w.agenda →
      deadline = w.clock + setup.batchInterval) :
    Shared.Comes setup w.shared w.pieces signal.toList w'.shared w'.pieces := by
  cases a with
  | materialize ref =>
    obtain ⟨hopen, h⟩ := Option.ite_none_right_eq_some.mp h
    cases h
    have hact : w.shared.act? setup w.pieces (.materialize ref) =
        some (w.shared.make (w.store.materialize setup ref)) :=
      if_pos (isOpen_pieces.trans hopen)
    refine comes_make hact rfl ?_
    unfold Store.materialize
    dsimp only
    split <;> simp [Piece.startsTimer]
  | subscribe query =>
    obtain ⟨hopen, h⟩ := Option.ite_none_right_eq_some.mp h
    cases h
    have hact : w.shared.act? setup w.pieces (.subscribe query) =
        some (w.shared.make (w.store.subscribe query).2) := if_pos (isOpen_pieces.trans hopen)
    exact comes_make hact rfl (plain_of_not_isErrand Store.not_isErrand_subscribe)
  | unsubscribe query listener vacuum =>
    obtain ⟨⟨hopen, hlistens⟩, h⟩ := Option.ite_none_right_eq_some.mp h
    cases h
    have hact : w.shared.act? setup w.pieces (.unsubscribe query listener vacuum) =
        some (w.shared.make (w.store.unsubscribe setup query listener vacuum)) :=
      if_pos ⟨isOpen_pieces.trans hopen, List.contains_iff_mem.mpr hlistens⟩
    exact comes_make hact rfl
      (plain_of_not_isErrand (Store.not_isErrand_unsubscribe listener vacuum))
  | refetch query =>
    obtain ⟨hopen, h⟩ := Option.ite_none_right_eq_some.mp h
    cases h
    have hact : w.shared.act? setup w.pieces (.refetch query) =
        some (w.shared.make (w.store.refetch query)) := if_pos (isOpen_pieces.trans hopen)
    exact comes_make hact rfl (plain_of_not_isErrand Store.not_isErrand_refetch)
  | watch =>
    obtain ⟨hopen, h⟩ := Option.ite_none_right_eq_some.mp h
    cases h
    have hact : w.shared.act? setup w.pieces .watch =
        some (w.shared.make (w.store.watch.2, [])) := if_pos (isOpen_pieces.trans hopen)
    exact comes_make hact rfl (List.forall_mem_nil _)
  | unwatch listener =>
    obtain ⟨hopen, h⟩ := Option.ite_none_right_eq_some.mp h
    cases h
    have hact : w.shared.act? setup w.pieces (.unwatch listener) =
        some (w.shared.make (w.store.unwatch listener, [])) := if_pos (isOpen_pieces.trans hopen)
    exact comes_make hact rfl (List.forall_mem_nil _)
  | emit event =>
    obtain ⟨hopen, h⟩ := Option.ite_none_right_eq_some.mp h
    cases h
    exact comes_emit (of_decide_eq_false whole) hopen
  | flush =>
    obtain ⟨hopen, h⟩ := Option.ite_none_right_eq_some.mp h
    cases h
    have hact : w.shared.act? setup w.pieces .flush = some w.shared.close :=
      if_pos (isOpen_pieces.trans hopen)
    exact .act hact comes_flush
  | mutated => cases whole
  | answered query epoch answer =>
    simp only [act?] at h
    split at h
    · next request hfind =>
      obtain ⟨⟨hidle, hfits⟩, h⟩ := Option.ite_none_right_eq_some.mp h
      cases h
      have hempty : w.pieces = [] := by rw [pieces, List.isEmpty_iff.mp hidle, List.map_nil]
      have hact : w.shared.act? setup w.pieces (.answered query epoch answer) =
          some ({ w.shared with requests := w.requests.eraseP (·.isFor query epoch) }.make
            (w.store.complete setup request answer)) := by
        have hfind : w.shared.requests.find? (·.isFor query epoch) = some request := hfind
        simp only [Shared.act?, hfind, hempty, hfits]
        rfl
      refine .last hact rfl ?_
      exact (pieces_proceed (plain_of_not_isErrand Store.not_isErrand_complete)).symm
    · cases h
  | timedOut window =>
    simp only [act?] at h
    split at h
    · next timer hfind =>
      obtain ⟨hidle, h⟩ := Option.ite_none_right_eq_some.mp h
      cases h
      have hempty : w.pieces = [] := by rw [pieces, List.isEmpty_iff.mp hidle, List.map_nil]
      have hact : w.shared.act? setup w.pieces (.timedOut window) =
          some (if window = w.store.batch.window then
            { w with timers := w.timers.erase timer }.shared.close
          else { shared := { w with timers := w.timers.erase timer }.shared }) := by
        have hfind : w.shared.timers.find? (fun t => t.1 = window ∧ t.2 ≤ w.shared.clock) =
            some timer := hfind
        simp only [Shared.act?, hfind, hempty]
        rfl
      by_cases hown : window = w.store.batch.window
      · rw [if_pos hown] at hact
        have hflush : w.store.flushWindow window = w.store.flush := by
          rw [Store.flushWindow, Batch.drainWindow, if_pos hown]
          rfl
        rw [hflush]
        exact .act hact (comes_flush (w := { w with timers := w.timers.erase timer }))
      · rw [if_neg hown] at hact
        have hmissed : w.store.flushWindow window = (w.store, []) := by
          rw [Store.flushWindow, Batch.drainWindow, if_neg hown]
          rfl
        rw [hmissed]
        exact .last hact rfl rfl
    · cases h
  | tick milliseconds =>
    obtain ⟨-, h⟩ := Option.ite_none_right_eq_some.mp h
    cases h
    have hact : w.shared.act? setup w.pieces (.tick milliseconds) =
        some { shared := { w.shared with clock := w.clock + milliseconds } } := rfl
    exact .last hact rfl rfl
  | goOn =>
    have hagenda : ∃ job rest, w.agenda = .work job :: rest := by
      simp only [act?] at h
      split at h
      · next job rest hagenda => exact ⟨job, rest, hagenda⟩
      · cases h
    obtain ⟨job, rest, hagenda⟩ := hagenda
    refine comes_goOn hagenda (fun window deadline hjob => timely window deadline ?_) h
    rw [hagenda, hjob]
    exact List.mem_cons_self
  | giveBack =>
    simp only [act?] at h
    split at h
    · next rest hagenda =>
      cases h
      have hpieces : w.pieces = .outside :: rest.map Turn.piece := by
        rw [pieces, hagenda]
        rfl
      have hact : w.shared.act? setup (.outside :: rest.map Turn.piece) .giveBack =
          some { shared := w.shared } := rfl
      rw [hpieces]
      exact .last hact rfl rfl
    · cases h

theorem of_isFirstHalf (h : w.act? setup a = some (w', signal))
    (half : (⟨w, a, signal, w'⟩ : Happening).isFirstHalf setup = true) : signal = none ∧
      ∃ service changes, w' = w.proceed (w.store, [.apply service changes]) ∧
        Shared.Comes setup w.shared w.pieces []
          (w.proceed (w.store.apply setup service changes)).shared
          (w.proceed (w.store.apply setup service changes)).pieces := by
  have hplain : ∀ service changes,
      ∀ p ∈ (w.store.apply setup service changes).2.map Piece.work, p.startsTimer = false :=
    fun service changes p hp => Shared.plain_of_isAside (Shared.isAside_apply service changes p hp)
  cases a with
  | mutated service change =>
    obtain ⟨hopen, h⟩ := Option.ite_none_right_eq_some.mp h
    cases h
    have hact : w.shared.act? setup w.pieces (.mutated service change) =
        some (w.shared.make (w.store.apply setup service [change])) :=
      if_pos (isOpen_pieces.trans hopen)
    exact ⟨rfl, service, [change], rfl, comes_make hact rfl (hplain _ _)⟩
  | emit event =>
    have hnow : setup.batchInterval = 0 := of_decide_eq_true half
    obtain ⟨hopen, h⟩ := Option.ite_none_right_eq_some.mp h
    rw [Store.emit, if_pos hnow] at h
    cases h
    have hact : w.shared.act? setup w.pieces (.emit event) =
        some (w.shared.make (w.store.apply setup event.service [event.change])) := by
      simp only [Shared.act?, isOpen_pieces, hopen, if_true, if_pos hnow]
      rfl
    exact ⟨rfl, event.service, [event.change], rfl, comes_make hact rfl (hplain _ _)⟩
  | materialize | subscribe | unsubscribe | refetch | watch | unwatch | flush | answered | timedOut
  | tick | goOn | giveBack => cases half

theorem act?_apply {service : String} {changes : List Change} :
    (w.proceed (w.store, [.apply service changes])).act? setup .goOn =
      some (w.proceed (w.store.apply setup service changes), none) := rfl

end World

/-! ## Runs -/

theorem Threads.Run.comes {setup : Setup} {history : List Threads.Step} {m m' : Shared}
    {agenda agenda' : List Piece} {signals : List Signal}
    (comes : Shared.Comes setup m agenda signals m' agenda')
    (run : Threads.Run setup 1 history ⟨m, [agenda]⟩) :
    ∃ more, Threads.Run setup 1 (history ++ more) ⟨m', [agenda']⟩ ∧
      Threads.signalsIn more = signals := by
  induction comes generalizing history with
  | rest => exact ⟨[], by rwa [List.append_nil], rfl⟩
  | @act m _ agenda _ a outcome signals happens _ ih =>
    have hact : Threads.act? setup ⟨m, [agenda]⟩ 0 a =
        some (⟨outcome.shared, [outcome.planned ++ a.rest agenda]⟩, outcome) :=
      Threads.act?_eq_some rfl happens
    obtain ⟨more, hmore, hasked⟩ := ih (run.act hact)
    rw [List.append_assoc] at hmore
    refine ⟨_, hmore, ?_⟩
    rw [← hasked, signalsIn, List.flatMap_append, List.flatMap_singleton]
    rfl

variable {setup : Setup} {history : List Happening} {w : World}

theorem Run.timely (run : Run setup history w) {window deadline : Nat}
    (mem : .work (.startTimer window deadline) ∈ w.agenda) :
    deadline = w.clock + setup.batchInterval := by
  cases run with
  | start => cases mem
  | act hrun hact =>
    cases World.errand_of_mem (World.errand_of_prompt hact hrun.prompt mem rfl) with
    | startTimer =>
      obtain ⟨-, h⟩ := Option.ite_none_right_eq_some.mp hact
      cases h
      rfl

theorem World.came_concat {h : Happening} : w.came setup (history ++ [h]) =
    if h.isFirstHalf setup then h.before else w := by
  rw [came, List.getLast?_concat]

/-- A history has come to its end, or has still to do the second half of its last act. -/
theorem Run.came_cases (run : Run setup history w) : w.came setup history = w ∨
    ∃ h : Happening, w.came setup history = h.before ∧
      h.before.act? setup h.act = some (w, h.signal) ∧
      (⟨h.before, h.act, h.signal, w⟩ : Happening).isFirstHalf setup = true := by
  rcases List.eq_nil_or_concat' history with rfl | ⟨earlier, h, rfl⟩
  · exact Or.inl rfl
  · obtain ⟨-, hoccurs, rfl⟩ := run.concat
    rw [World.came_concat]
    cases hhalf : h.isFirstHalf setup with
    | false => exact Or.inl (if_neg Bool.false_ne_true)
    | true => exact Or.inr ⟨h, if_pos rfl, hoccurs.act, hhalf⟩

theorem Run.alone_came (run : Run setup history w) : ∃ steps,
    Threads.Run setup 1 steps (w.came setup history).alone ∧
      Threads.signalsIn steps = signalsIn history := by
  induction run with
  | start => exact ⟨[], .start, rfl⟩
  | @act history w w' a signal hrun hact ih =>
    obtain ⟨steps, hsteps, hasked⟩ := ih
    have hsignals : signalsIn (history ++ [⟨w, a, signal, w'⟩]) =
        signalsIn history ++ signal.toList := by
      rw [signalsIn, List.flatMap_append, List.flatMap_singleton]
      rfl
    have hmany : ∀ more, Threads.signalsIn (steps ++ more) =
        Threads.signalsIn steps ++ Threads.signalsIn more := fun _ => List.flatMap_append
    rw [World.came_concat, hsignals]
    rcases hrun.came_cases with hw | ⟨h, hbefore, hfirst, hhalf⟩
    · rw [hw] at hsteps
      cases hhalf : (⟨w, a, signal, w'⟩ : Happening).isFirstHalf setup with
      | true =>
        obtain ⟨rfl, -⟩ := World.of_isFirstHalf hact hhalf
        refine ⟨steps, hsteps, ?_⟩
        rw [hasked]
        exact (List.append_nil _).symm
      | false =>
        obtain ⟨more, hmore, hnew⟩ :=
          hsteps.comes (World.comes_of_act hact hhalf fun _ _ hmem => hrun.timely hmem)
        refine ⟨steps ++ more, hmore, ?_⟩
        rw [hmany, hasked, hnew]
    · rw [hbefore] at hsteps
      obtain ⟨-, service, changes, rfl, hcomes⟩ := World.of_isFirstHalf hfirst hhalf
      obtain rfl : a = .goOn := World.eq_goOn_of_work rfl hact
      obtain ⟨rfl, rfl⟩ := Prod.mk.inj (Option.some.inj (World.act?_apply.symm.trans hact))
      obtain ⟨more, hmore, hnew⟩ := hsteps.comes hcomes
      refine ⟨steps ++ more, hmore, ?_⟩
      rw [hmany, hasked, hnew]
      rfl

/-- Whenever the outside has control, a single thread can have come to the same state and have asked
the same of the outside, in the same order. -/
theorem Run.alone (run : Run setup history w) (isOpen : w.isOpen = true) : ∃ steps,
    Threads.Run setup 1 steps w.alone ∧
      Threads.signalsIn steps = signalsIn history := by
  rcases run.came_cases with hw | ⟨h, -, hfirst, hhalf⟩
  · rw [← hw]
    exact run.alone_came
  · obtain ⟨-, service, changes, rfl, -⟩ := World.of_isFirstHalf hfirst hhalf
    cases isOpen

namespace Threads

variable {steps : List Step} {t : Threads} {h : Step}

theorem Run.length_agendas {threads : Nat} (run : Run setup threads steps t) :
    t.agendas.length = threads := by
  induction steps using List.reverseRecOn generalizing t with
  | nil =>
    obtain rfl := run_nil.mp run
    exact List.length_replicate
  | append_singleton steps last ih =>
    obtain ⟨hrun, hoccurs, rfl⟩ := run.concat
    obtain ⟨-, -, hafter⟩ := hoccurs.outcome
    rw [hafter, List.length_set]
    exact ih hrun

theorem Run.others_eq_nil (run : Run setup 1 steps t) (mem : h ∈ steps) : h.others = [] := by
  obtain ⟨before, since, rfl⟩ := List.append_of_mem mem
  obtain ⟨hrun, hoccurs, -⟩ := run.until.concat
  obtain ⟨hagenda, -, -⟩ := hoccurs.outcome
  obtain ⟨hlt, -⟩ := List.getElem?_eq_some_iff.mp hagenda
  have hlength := List.length_eraseIdx_of_lt hlt
  rw [hrun.length_agendas] at hlength
  rw [Step.others, List.eq_nil_of_length_eq_zero hlength, List.flatten_nil]

theorem Run.not_overtakes (run : Run setup 1 steps t) (l : ListenerId) :
    ∀ h ∈ steps, ¬h.Overtakes l := by
  rintro h hmem ⟨n, -, -, m, hm, -⟩
  rw [run.others_eq_nil hmem] at hm
  cases hm

theorem Run.not_overlaps (run : Run setup 1 steps t) : ∀ h ∈ steps, h.overlaps = false := by
  intro h hmem
  unfold Step.overlaps
  rw [run.others_eq_nil hmem]
  split <;> simp

end Threads

end LiveQuery
