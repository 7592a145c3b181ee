import LiveQuery.Proofs.Threads.Queue

/-!
# Windows and their timers, among several threads

What waits in the queue is never forgotten, whatever comes between the steps of a push: either its
window is scheduled, and then a timer of it runs or is about to be started, or somebody is on the
way to schedule it or to take it (`Batch.Watched`). But the window may be closed between the two
last steps of a push. Then the timer is started for a window into which nothing has been put, and
another timer of the same window may follow (`Notes.pushes_across_drains`). As long as pushes and
drains do not overlap, times of pushing and times of draining take turns (`Batch.Apart`), and what
is kept by a single thread holds: the window is scheduled only if something waits, and no window has
a second timer (`Threads.Run.batches_keep_all`).
-/

namespace LiveQuery

namespace Piece

/-- Is a piece part of what is done to the queue and its timers? -/
def isQueues : Piece → Bool
  | .schedule | .number | .setTimer _ | .unschedule | .take _ => true
  | .work _ | .ask _ _ | .outside => false

/-- The windows that a piece is to start a timer for, where this is the current one. -/
def alarms (current : Nat) : Piece → List Nat
  | .number => [current]
  | .setTimer window => [window]
  | _ => []

def started : Piece → List Nat
  | .setTimer window => [window]
  | _ => []

variable {p : Piece}

theorem not_pushes_of_not_isQueues (h : p.isQueues = false) : p.pushes = false := by
  cases p <;> first | rfl | cases h

theorem not_drains_of_not_isQueues (h : p.isQueues = false) : p.drains = false := by
  cases p <;> first | rfl | cases h

theorem alarms_of_not_isQueues (h : p.isQueues = false) (current : Nat) :
    p.alarms current = [] := by
  cases p <;> first | rfl | cases h

theorem started_of_not_isQueues (h : p.isQueues = false) : p.started = [] := by
  cases p <;> first | rfl | cases h

theorem not_isQueues_of_isAside (h : p.isAside = true) : p.isQueues = false := by
  cases p <;> first | rfl | cases h

end Piece

/-- The windows for which timers are to be started or have been. -/
def alarmsOf (current : Nat) (pieces : List Piece) (started : List Nat) : List Nat :=
  pieces.flatMap (·.alarms current) ++ started

namespace Batch

/-- Does somebody see to the events that wait, and to a timer if their window is scheduled? -/
structure Watched (b : Batch) (timers : List (Nat × Nat)) (pieces : List Piece) : Prop where
  waits : b.queue ≠ [] → b.scheduled = true ∨ .schedule ∈ pieces ∨ ∃ taken, .take taken ∈ pieces
  alarmed : b.scheduled = true → .unschedule ∈ pieces ∨ .number ∈ pieces ∨
    .setTimer b.window ∈ pieces ∨ ∃ t ∈ timers, t.1 = b.window

/-- Nobody drains the queue, and the window is scheduled for the sake of what waits in it. -/
structure Pushing (b : Batch) (alarms : List Nat) (pieces : List Piece) : Prop where
  undrained : ∀ p ∈ pieces, p.drains = false
  sent : .schedule ∈ pieces → b.queue ≠ []
  tight : b.scheduled = true → b.queue ≠ []
  opened : ∀ v ∈ alarms, v < b.window ∨ v = b.window ∧ b.scheduled = true

/-- Nobody pushes to the queue, and all timers are those of windows that have been closed. -/
structure Draining (b : Batch) (alarms : List Nat) (pieces : List Piece) : Prop where
  unpushed : ∀ p ∈ pieces, p.pushes = false
  tight : b.scheduled = true → .unschedule ∈ pieces
  opened : ∀ v ∈ alarms, v < b.window

/-- Do pushes and drains keep apart? Then no window has a second timer. -/
structure Apart (b : Batch) (alarms : List Nat) (pieces : List Piece) : Prop where
  phase : b.Pushing alarms pieces ∨ b.Draining alarms pieces
  distinct : alarms.Nodup

variable {b : Batch} {alarms alarms' : List Nat} {pieces pieces' : List Piece}

theorem Watched.perm {timers : List (Nat × Nat)} (h : b.Watched timers pieces)
    (same : pieces.Perm pieces') : b.Watched timers pieces' := by
  constructor
  · simpa only [same.mem_iff] using h.waits
  · simpa only [same.mem_iff] using h.alarmed

theorem Pushing.mono (h : b.Pushing alarms pieces)
    (fewer : ∀ p ∈ pieces', p ∈ pieces ∨ p.pushes = false ∧ p.drains = false)
    (same : alarms' ⊆ alarms) : b.Pushing alarms' pieces' where
  undrained := by
    intro p hp
    rcases fewer p hp with hbefore | ⟨-, hdrains⟩
    · exact h.undrained p hbefore
    · exact hdrains
  sent := by
    intro hp
    rcases fewer _ hp with hbefore | ⟨hpushes, -⟩
    · exact h.sent hbefore
    · cases hpushes
  tight := h.tight
  opened v hv := h.opened v (same hv)

theorem Draining.mono (h : b.Draining alarms pieces)
    (fewer : ∀ p ∈ pieces', p ∈ pieces ∨ p.pushes = false)
    (kept : .unschedule ∈ pieces → .unschedule ∈ pieces') (same : alarms' ⊆ alarms) :
    b.Draining alarms' pieces' where
  unpushed p hp := (fewer p hp).elim (h.unpushed p) id
  tight hscheduled := kept (h.tight hscheduled)
  opened v hv := h.opened v (same hv)

theorem Apart.mono (h : b.Apart alarms pieces)
    (fewer : ∀ p ∈ pieces', p ∈ pieces ∨ p.pushes = false ∧ p.drains = false)
    (kept : .unschedule ∈ pieces → .unschedule ∈ pieces') (same : alarms'.Perm alarms) :
    b.Apart alarms' pieces' where
  phase := h.phase.imp (·.mono fewer same.subset)
    (·.mono (fun p hp => (fewer p hp).imp_right And.left) kept same.subset)
  distinct := same.nodup_iff.mpr h.distinct

theorem Apart.perm {started : List Nat} (h : b.Apart (alarmsOf b.window pieces started) pieces)
    (same : pieces.Perm pieces') : b.Apart (alarmsOf b.window pieces' started) pieces' :=
  h.mono (fun _ hp => Or.inl (same.mem_iff.mpr hp)) same.mem_iff.mp
    ((same.symm.flatMap_right _).append_right _)

end Batch

namespace Shared

variable {setup : Setup} {m m' : Shared} {a : Act} {done planned rest others kept : List Piece}
variable {started : List Nat}

theorem not_isQueues (does : (∀ p ∈ done, p.isAside = true) ∨
    ∃ name changes, done = [.work (.apply name changes)]) : ∀ p ∈ done, p.isQueues = false := by
  rcases does with haside | ⟨name, changes, rfl⟩
  · exact fun p hp => Piece.not_isQueues_of_isAside (haside p hp)
  · exact List.forall_mem_singleton.mpr rfl

theorem not_isQueues_map (work : List Work) : ∀ p ∈ work.map Piece.work, p.isQueues = false := by
  intro p hp
  obtain ⟨job, -, rfl⟩ := List.mem_map.mp hp
  rfl

theorem alarmsOf_perm (done planned : List Piece) {current : Nat}
    (same : planned.flatMap (·.alarms current) ++ done.flatMap Piece.started =
      done.flatMap (·.alarms current)) :
    (alarmsOf current (planned ++ kept) (started ++ done.flatMap Piece.started)).Perm
      (alarmsOf current (done ++ kept) started) := by
  unfold alarmsOf
  rw [List.flatMap_append, List.flatMap_append, ← same]
  simp only [List.append_assoc]
  refine List.Perm.append_left _ ?_
  rw [← List.append_assoc]
  exact List.perm_append_comm

namespace Handles

theorem watched (h : Handles setup m m' a done planned rest)
    (before : m.store.batch.Watched m.timers (done ++ (rest ++ others))) :
    m'.store.batch.Watched m'.timers (planned ++ (rest ++ others)) := by
  obtain ⟨hwaits, halarmed⟩ := before
  cases h with
  | sent _ _ does plans _ left | scheduled _ does plans left | numbered _ does plans left
  | flushed _ does plans _ left | ranOut _ _ _ _ _ does plans _ left
  | unscheduled _ does plans _ left
  | took _ _ _ _ _ does plans left | finished _ _ _ does plans left =>
    subst does plans
    rw [left.batch, left.timers]
    constructor <;> grind [Batch.send, Batch.schedule, Batch.unschedule]
  | missed timer late _ does plans left =>
    subst does plans
    have hkept : ∀ t ∈ m.timers, t.1 = m.store.batch.window → t ∈ m.timers.erase timer := by
      rintro t ht hown
      refine (List.mem_erase_of_ne ?_).mpr ht
      rintro rfl
      exact late hown
    rw [left.batch, left.timers]
    exact ⟨hwaits, by grind⟩
  | set window _ does plans left =>
    subst does plans
    rw [left.batch, left.timers]
    have hkept : ∀ {p}, p ∈ [.setTimer window] ++ (rest ++ others) → p = .setTimer window ∨
        p ∈ [] ++ (rest ++ others) := fun hp => List.mem_cons.mp hp
    refine ⟨by grind, fun hscheduled => ?_⟩
    rcases halarmed hscheduled with h | h | h | ⟨t, ht, hown⟩
    · exact Or.inl ((hkept h).resolve_left nofun)
    · exact Or.inr (Or.inl ((hkept h).resolve_left nofun))
    · rcases hkept h with hset | h
      · cases hset
        exact Or.inr (Or.inr (Or.inr ⟨_, List.mem_concat_self, rfl⟩))
      · exact Or.inr (Or.inr (Or.inl h))
    · exact Or.inr (Or.inr (Or.inr ⟨t, List.mem_append_left _ ht, hown⟩))
  | still _ does _ batch timers =>
    have hdone := not_isQueues does
    rw [batch, timers]
    constructor <;> grind [Piece.isQueues]

theorem idle (h : Handles setup m m' a done planned rest)
    (begins : (∃ event, a = .emit event) ∨ m'.store.batch.window ≠ m.store.batch.window) :
    ∀ p ∈ rest, p.waits = true := by
  have hgoOn : ∀ {batch timers}, a = .goOn → m.Leaves m' batch timers →
      batch.window = m.store.batch.window → ∀ p ∈ rest, p.waits = true := by
    rintro batch timers rfl left hwindow
    rcases begins with ⟨event, hact⟩ | hother
    · cases hact
    · exact absurd ((congrArg Batch.window left.batch).trans hwindow) hother
  cases h with
  | sent _ _ _ _ idle | flushed _ _ _ idle | ranOut _ _ _ _ _ _ _ idle => exact idle
  | scheduled act _ _ left | numbered act _ _ left | set _ act _ _ left
  | unscheduled act _ _ _ left | took _ _ _ act _ _ _ left | finished _ act _ _ _ left =>
    exact hgoOn act left rfl
  | missed _ _ act _ _ left =>
    rcases begins with ⟨event, hact⟩ | hother
    · cases act.symm.trans hact
    · exact absurd (congrArg Batch.window left.batch) hother
  | still silent _ _ batch =>
    rcases begins with ⟨event, hact⟩ | hother
    · exact absurd hact (silent event)
    · exact absurd (congrArg Batch.window batch) hother

/-- Once nobody pushes any more, a window that is closed leaves only timers of closed windows. -/
theorem apart_close {b : Batch}
    (before : b.Apart (alarmsOf b.window ([] ++ kept) started) ([] ++ kept))
    (closes : ∀ p ∈ kept, p.pushes = false) :
    b.close.Apart (alarmsOf b.close.window ([.unschedule, .take []] ++ kept) (started ++ []))
      ([.unschedule, .take []] ++ kept) := by
  have hsame : alarmsOf b.close.window ([.unschedule, .take []] ++ kept) (started ++ []) =
      alarmsOf b.window ([] ++ kept) started := by
    rw [List.append_nil]
    show kept.flatMap (·.alarms b.close.window) ++ started = kept.flatMap (·.alarms b.window) ++ _
    refine congrArg (· ++ started) (List.flatMap_congr fun p hp => ?_)
    cases p with
    | number => cases closes _ hp
    | work | ask | schedule | setTimer | unschedule | take | outside => rfl
  rw [hsame]
  refine ⟨Or.inr ⟨?_, fun _ => List.mem_cons_self, fun v hv => ?_⟩, before.distinct⟩
  · simpa [Piece.pushes] using closes
  · show v < b.window + 1
    rcases before.phase with hphase | hphase
    · rcases hphase.opened v hv with hlt | ⟨rfl, -⟩
      · exact Nat.lt_succ_of_lt hlt
      · exact Nat.lt_succ_self _
    · exact Nat.lt_succ_of_lt (hphase.opened v hv)

theorem apart_send {b : Batch} {event : Event}
    (before : b.Apart (alarmsOf b.window ([] ++ kept) started) ([] ++ kept))
    (pushes : ∀ p ∈ kept, p.drains = false) :
    (b.send event).Apart (alarmsOf b.window ([.schedule] ++ kept) (started ++ []))
      ([.schedule] ++ kept) := by
  have hqueue : b.queue ++ [event] ≠ [] := List.append_ne_nil_of_right_ne_nil _ nofun
  have hsame : (alarmsOf b.window ([.schedule] ++ kept) (started ++ [])).Perm
      (alarmsOf b.window ([] ++ kept) started) := alarmsOf_perm [] [.schedule] rfl
  refine ⟨Or.inl ⟨?_, fun _ => hqueue, fun _ => hqueue, fun v hv => ?_⟩,
    hsame.nodup_iff.mpr before.distinct⟩
  · simpa [Piece.drains] using pushes
  · rcases before.phase with hphase | hphase
    · exact hphase.opened v (hsame.subset hv)
    · exact Or.inl (hphase.opened v (hsame.subset hv))

theorem apart_schedule {b : Batch}
    (before : b.Apart (alarmsOf b.window ([.schedule] ++ kept) started) ([.schedule] ++ kept)) :
    b.schedule.Apart (alarmsOf b.window ((if b.scheduled then [] else [.number]) ++ kept)
      (started ++ [])) ((if b.scheduled then [] else [.number]) ++ kept) := by
  obtain ⟨hphase | hphase, hdistinct⟩ := before
  · have hqueue : b.queue ≠ [] := hphase.sent List.mem_cons_self
    have hundrained : ∀ p ∈ kept, p.drains = false := fun p hp =>
      hphase.undrained p (List.mem_cons_of_mem _ hp)
    rw [List.append_nil]
    cases hscheduled : b.scheduled with
    | true =>
      refine ⟨Or.inl ⟨hundrained, fun _ => hqueue, fun _ => hqueue, fun v hv => ?_⟩, hdistinct⟩
      exact (hphase.opened v hv).imp_right fun hown => ⟨hown.1, rfl⟩
    | false =>
      have hearlier : ∀ v ∈ alarmsOf b.window ([.schedule] ++ kept) started, v < b.window :=
        fun v hv => (hphase.opened v hv).resolve_right fun hown =>
          Bool.false_ne_true (hscheduled.symm.trans hown.2)
      refine ⟨Or.inl ⟨?_, fun _ => hqueue, fun _ => hqueue, fun v hv => ?_⟩, ?_⟩
      · simpa [Piece.drains] using hundrained
      · rcases List.mem_cons.mp hv with rfl | hv
        · exact Or.inr ⟨rfl, rfl⟩
        · exact Or.inl (hearlier v hv)
      · exact List.nodup_cons.mpr ⟨fun hmem => Nat.lt_irrefl _ (hearlier _ hmem), hdistinct⟩
  · cases hphase.unpushed _ List.mem_cons_self

theorem apart_of_not_isQueues {b : Batch}
    (before : b.Apart (alarmsOf b.window (done ++ kept) started) (done ++ kept))
    (does : ∀ p ∈ done, p ≠ .unschedule ∧ p.alarms b.window = p.started)
    (plans : ∀ p ∈ planned, p.isQueues = false) :
    b.Apart (alarmsOf b.window (planned ++ kept) (started ++ done.flatMap Piece.started))
      (planned ++ kept) := by
  refine before.mono (fun p hp => ?_) (fun hp => ?_) (alarmsOf_perm _ _ ?_)
  · rcases List.mem_append.mp hp with hp | hp
    · exact Or.inr ⟨Piece.not_pushes_of_not_isQueues (plans p hp),
        Piece.not_drains_of_not_isQueues (plans p hp)⟩
    · exact Or.inl (List.mem_append_right _ hp)
  · rcases List.mem_append.mp hp with hp | hp
    · exact absurd rfl (does _ hp).1
    · exact List.mem_append_right _ hp
  · have hnone : planned.flatMap (·.alarms b.window) = [] :=
      List.flatMap_eq_nil_iff.mpr fun p hp => Piece.alarms_of_not_isQueues (plans p hp) _
    rw [hnone]
    exact (List.flatMap_congr fun p hp => (does p hp).2).symm

theorem apart (h : Handles setup m m' a done planned rest)
    (pushes : (∃ event, a = .emit event) → ∀ p ∈ kept, p.drains = false)
    (closes : m'.store.batch.window ≠ m.store.batch.window → ∀ p ∈ kept, p.pushes = false)
    (before : m.store.batch.Apart (alarmsOf m.store.batch.window (done ++ kept) started)
      (done ++ kept)) :
    m'.store.batch.Apart
      (alarmsOf m'.store.batch.window (planned ++ kept) (started ++ done.flatMap Piece.started))
      (planned ++ kept) := by
  cases h with
  | sent event act does plans _ left =>
    subst does plans
    rw [left.batch]
    exact apart_send before (pushes ⟨event, act⟩)
  | scheduled act does plans left =>
    subst does plans
    rw [left.batch]
    exact apart_schedule before
  | numbered act does plans left =>
    subst does plans
    rw [left.batch]
    exact before.mono (by simp +contextual [Piece.pushes, Piece.drains]) (by simp)
      (alarmsOf_perm _ _ rfl)
  | set window act does plans left =>
    subst does plans
    rw [left.batch]
    exact apart_of_not_isQueues before (List.forall_mem_singleton.mpr ⟨nofun, rfl⟩)
      (List.forall_mem_nil _)
  | flushed _ does plans _ left | ranOut _ _ _ _ _ does plans _ left =>
    subst does plans
    rw [left.batch] at closes ⊢
    exact apart_close before (closes (Nat.succ_ne_self _))
  | missed _ _ _ does plans left =>
    subst does plans
    rw [left.batch]
    exact apart_of_not_isQueues before (List.forall_mem_nil _) (List.forall_mem_nil _)
  | unscheduled act does plans _ left =>
    subst does plans
    rw [left.batch]
    have hsame : (alarmsOf m.store.batch.window ([] ++ kept) (started ++ [])).Perm
        (alarmsOf m.store.batch.window ([.unschedule] ++ kept) started) :=
      alarmsOf_perm [.unschedule] [] rfl
    refine ⟨Or.inr ?_, hsame.nodup_iff.mpr before.distinct⟩
    rcases before.phase with hphase | hphase
    · cases hphase.undrained _ List.mem_cons_self
    · exact ⟨fun p hp => hphase.unpushed p (List.mem_cons_of_mem _ hp), nofun,
        fun v hv => hphase.opened v (hsame.subset hv)⟩
  | took taken event queue act waits does plans left =>
    subst does plans
    rw [left.batch]
    have hsame : (alarmsOf m.store.batch.window ([.take (taken ++ [event])] ++ kept)
        (started ++ [])).Perm
        (alarmsOf m.store.batch.window ([.take taken] ++ kept) started) :=
      alarmsOf_perm [.take taken] [.take (taken ++ [event])] rfl
    refine ⟨Or.inr ?_, hsame.nodup_iff.mpr before.distinct⟩
    rcases before.phase with hphase | hphase
    · cases hphase.undrained _ List.mem_cons_self
    · refine ⟨?_, fun hscheduled => ?_, fun v hv => hphase.opened v (hsame.subset hv)⟩
      · simpa [Piece.pushes] using hphase.unpushed
      · simpa using hphase.tight hscheduled
  | finished taken _ _ does plans left =>
    subst does plans
    rw [left.batch]
    exact apart_of_not_isQueues before (List.forall_mem_singleton.mpr ⟨nofun, rfl⟩)
      (not_isQueues_map _)
  | still _ does plans batch =>
    rw [batch]
    refine apart_of_not_isQueues before (fun p hp => ?_) fun p hp =>
      Piece.not_isQueues_of_isAside (plans p hp)
    have hdone := not_isQueues does p hp
    refine ⟨fun h => ?_, ?_⟩
    · rw [h] at hdone
      cases hdone
    · rw [Piece.alarms_of_not_isQueues hdone, Piece.started_of_not_isQueues hdone]

theorem due_of_close (h : Handles setup m m' a done planned rest)
    (closes : m'.store.batch.window ≠ m.store.batch.window) :
    a = .flush ∨ a = .timedOut m.store.batch.window ∧
      ∃ timer ∈ m.timers, timer.1 = m.store.batch.window ∧ timer.2 ≤ m.clock := by
  cases h with
  | flushed act => exact Or.inl act
  | ranOut timer runs own due act => exact Or.inr ⟨act, timer, runs, own, due⟩
  | sent _ _ _ _ _ left | scheduled _ _ _ left | numbered _ _ _ left | set _ _ _ _ left
  | missed _ _ _ _ _ left | unscheduled _ _ _ _ left | took _ _ _ _ _ _ _ left
  | finished _ _ _ _ _ left => exact absurd (congrArg Batch.window left.batch) closes
  | still _ _ _ batch => exact absurd (congrArg Batch.window batch) closes

theorem timers_subperm (h : Handles setup m m' a done planned rest)
    (before : (m.timers.map Prod.fst).Subperm started) :
    (m'.timers.map Prod.fst).Subperm (started ++ done.flatMap Piece.started) := by
  have hmore : started.Subperm (started ++ done.flatMap Piece.started) :=
    (List.sublist_append_left _ _).subperm
  cases h with
  | set window act does _ left =>
    rw [left.timers, does, List.map_append]
    exact (List.subperm_append_right [window]).mpr before
  | ranOut _ _ _ _ _ _ _ _ left | missed _ _ _ _ _ left =>
    rw [left.timers]
    exact ((List.erase_sublist.map _).subperm.trans before).trans hmore
  | sent _ _ _ _ _ left | scheduled _ _ _ left | numbered _ _ _ left | flushed _ _ _ _ left
  | unscheduled _ _ _ _ left | took _ _ _ _ _ _ _ left | finished _ _ _ _ _ left =>
    rw [left.timers]
    exact before.trans hmore
  | still _ _ _ _ timers =>
    rw [timers]
    exact before.trans hmore

end Handles

end Shared

namespace Threads

/-- Does a thread begin to push while another one drains, or to drain while another one pushes? -/
def Step.overlaps (h : Step) : Bool :=
  match h.act with
  | .emit _ => h.others.any Piece.drains
  | .flush => h.others.any Piece.pushes
  | .timedOut window => window == h.before.store.batch.window && h.others.any Piece.pushes
  | _ => false

def startedIn (history : List Step) : List Nat := (history.flatMap Step.done).flatMap Piece.started

variable {setup : Setup} {threads : Nat} {history : List Step} {w : Threads} {h last : Step}

theorem Step.not_drains_of_emits (apart : h.overlaps = false) {event : Event}
    (emits : h.act = .emit event) : ∀ p ∈ h.others, p.drains = false := by
  unfold overlaps at apart
  rw [emits] at apart
  simpa using apart

theorem Step.not_pushes_of_closes (apart : h.overlaps = false)
    (closes : h.act = .flush ∨ h.act = .timedOut h.before.store.batch.window) :
    ∀ p ∈ h.others, p.pushes = false := by
  unfold overlaps at apart
  rcases closes with hact | hact
  · rw [hact] at apart
    simpa using apart
  · rw [hact] at apart
    simpa using apart

theorem Run.watched (run : Run setup threads history w) (batches : setup.batchInterval ≠ 0) :
    w.store.batch.Watched w.timers w.pieces := by
  induction history using List.reverseRecOn generalizing w with
  | nil =>
    obtain rfl := run_nil.mp run
    exact ⟨fun h => absurd rfl h, nofun⟩
  | append_singleton history last ih =>
    have hall := run
    obtain ⟨hrun, hoccurs, rfl⟩ := run.concat
    obtain ⟨hbefore, hafter⟩ := hoccurs.pieces
    exact ((hall.handles batches).watched ((ih hrun).perm hbefore)).perm hafter.symm

/-- As long as pushes and drains do not overlap, they keep apart. -/
theorem Run.apart (run : Run setup threads history w) (batches : setup.batchInterval ≠ 0)
    (apart : ∀ h ∈ history, h.overlaps = false) : w.store.batch.Apart
      (alarmsOf w.store.batch.window w.pieces (startedIn history)) w.pieces := by
  induction history using List.reverseRecOn generalizing w with
  | nil =>
    obtain rfl := run_nil.mp run
    rw [pieces_replicate]
    exact ⟨Or.inl ⟨List.forall_mem_nil _, nofun, nofun, List.forall_mem_nil _⟩, List.nodup_nil⟩
  | append_singleton history last ih =>
    have hall := run
    obtain ⟨hrun, hoccurs, rfl⟩ := run.concat
    obtain ⟨hbefore, hafter⟩ := hoccurs.pieces
    have hhandles := hall.handles batches
    have hlast := apart last List.mem_concat_self
    have hdone : startedIn (history ++ [last]) =
        startedIn history ++ last.done.flatMap Piece.started := by
      rw [startedIn, List.flatMap_append, List.flatMap_append, List.flatMap_singleton]
      rfl
    rw [hdone]
    refine (hhandles.apart (fun hemits => ?_) (fun hcloses => ?_)
      ((ih hrun fun h hmem => apart h (List.mem_append_left _ hmem)).perm hbefore)).perm
      hafter.symm
    · obtain ⟨event, hact⟩ := hemits
      refine List.forall_mem_append.mpr ⟨fun p hp => ?_, last.not_drains_of_emits hlast hact⟩
      exact Piece.not_drains_of_waits (hhandles.idle (Or.inl ⟨event, hact⟩) p hp)
    · refine List.forall_mem_append.mpr ⟨fun p hp => ?_,
        last.not_pushes_of_closes hlast ((hhandles.due_of_close hcloses).imp_right And.left)⟩
      exact Piece.not_pushes_of_waits (hhandles.idle (Or.inr hcloses) p hp)

theorem Run.timers_subperm (run : Run setup threads history w)
    (batches : setup.batchInterval ≠ 0) : (w.timers.map Prod.fst).Subperm (startedIn history) := by
  induction history using List.reverseRecOn generalizing w with
  | nil =>
    obtain rfl := run_nil.mp run
    exact List.nil_subperm
  | append_singleton history last ih =>
    have hall := run
    obtain ⟨hrun, -, rfl⟩ := run.concat
    have hsubperm := (hall.handles batches).timers_subperm (ih hrun)
    rwa [startedIn, List.flatMap_append, List.flatMap_append, List.flatMap_singleton]

theorem act?_eq_some {thread : Nat} {agenda : List Piece} {a : Act} {outcome : Outcome}
    (has : w.agendas[thread]? = some agenda)
    (happens : w.toShared.act? setup agenda a = some outcome) : w.act? setup thread a =
      some (⟨outcome.shared, w.agendas.set thread (outcome.planned ++ a.rest agenda)⟩, outcome) := by
  simp [act?, has, happens]

/-- A timer that is due closes its window, on any thread that has nothing to do. -/
theorem exists_closed {thread : Nat} (idle : w.agendas[thread]? = some []) {timer : Nat × Nat}
    (runs : timer ∈ w.timers) (own : timer.1 = w.store.batch.window) (due : timer.2 ≤ w.clock) :
    ∃ closed outcome,
      w.act? setup thread (.timedOut w.store.batch.window) = some (closed, outcome) ∧
        closed.store.batch.window = w.store.batch.window + 1 ∧
        outcome.planned = [.unschedule, .take []] := by
  have hfound : (w.timers.find? fun t => t.1 = w.store.batch.window ∧ t.2 ≤ w.clock).isSome := by
    refine List.find?_isSome.mpr ⟨timer, runs, ?_⟩
    simp [own, due]
  obtain ⟨first, hfirst⟩ := Option.isSome_iff_exists.mp hfound
  have hact : w.toShared.act? setup [] (.timedOut w.store.batch.window) =
      some { w.toShared with timers := w.timers.erase first }.close := by
    dsimp only [Shared.act?]
    rw [hfirst]
    simp
  exact ⟨_, _, act?_eq_some idle hact, rfl, rfl⟩

/-- Whatever threads do, what has arrived for a service has been applied, once and to that service,
or is held by some thread, or waits in the queue; at rest, nothing is held. While nobody is in the
middle of a push or a drain, what waits in the queue has a scheduled window, and a timer of it runs,
that can close the window on any thread once it is due. If pushes and drains do not overlap, the
window is scheduled only then, and there has never been a second timer of a window. -/
theorem Run.batches_keep_all (run : Run setup threads history w)
    (batches : setup.batchInterval ≠ 0) :
    (∀ name, (emittedOn name history).Perm
      (appliedOn name history ++ (w.heldOn name ++ w.store.batch.queuedOn name))) ∧
    (w.pieces = [] → ∀ name, w.heldOn name = []) ∧
    ((∀ p ∈ w.pieces, p.isQueues = false) → w.store.batch.queue ≠ [] →
      w.store.batch.scheduled = true ∧ ∃ timer ∈ w.timers, timer.1 = w.store.batch.window ∧
        (timer.2 ≤ w.clock → ∀ thread, w.agendas[thread]? = some [] → ∃ closed outcome,
          w.act? setup thread (.timedOut w.store.batch.window) = some (closed, outcome) ∧
            outcome.planned = [.unschedule, .take []])) ∧
    ((∀ h ∈ history, h.overlaps = false) →
      ((∀ p ∈ w.pieces, p.isQueues = false) →
        (w.store.batch.scheduled = true ↔ w.store.batch.queue ≠ [])) ∧
      (w.timers.map Prod.fst).Nodup ∧ (startedIn history).Nodup) := by
  refine ⟨run.account batches, fun hrests name => ?_, fun hquiet hqueue => ?_, fun hapart => ?_⟩
  · rw [heldOn, hrests]
    rfl
  · obtain ⟨hwaits, halarmed⟩ := run.watched batches
    have hscheduled : w.store.batch.scheduled = true := by
      rcases hwaits hqueue with h | h | ⟨taken, h⟩
      · exact h
      · cases hquiet _ h
      · cases hquiet _ h
    refine ⟨hscheduled, ?_⟩
    rcases halarmed hscheduled with h | h | h | ⟨timer, hruns, hown⟩
    · cases hquiet _ h
    · cases hquiet _ h
    · cases hquiet _ h
    · refine ⟨timer, hruns, hown, fun hdue thread hidle => ?_⟩
      obtain ⟨closed, outcome, hact, -, hplanned⟩ := exists_closed hidle hruns hown hdue
      exact ⟨closed, outcome, hact, hplanned⟩
  · obtain ⟨hphase, hdistinct⟩ := run.apart batches hapart
    have hstarted : (startedIn history).Nodup :=
      hdistinct.sublist (List.sublist_append_right _ _)
    refine ⟨fun hquiet => ⟨fun hscheduled => ?_, fun hqueue => ?_⟩, ?_, hstarted⟩
    · rcases hphase with hpushing | hdraining
      · exact hpushing.tight hscheduled
      · cases hquiet _ (hdraining.tight hscheduled)
    · rcases (run.watched batches).waits hqueue with h | h | ⟨taken, h⟩
      · exact h
      · cases hquiet _ h
      · cases hquiet _ h
    · obtain ⟨among, hperm, hsublist⟩ := run.timers_subperm batches
      exact hperm.nodup_iff.mp (hstarted.sublist hsublist)

end Threads

namespace Notes

def addsNote (id time : Int) : Act := .emit ⟨"notes", .created, note id time "idea"⟩

/-- Two threads add a note each at a time. The first one has them shown, and the second adds another
while they are applied. -/
def pushing : List (Nat × Act) :=
  [(0, addsNote 1 100), (1, addsNote 2 200), (1, .goOn), (0, .goOn), (1, .goOn), (1, .goOn),
    (0, .flush), (0, .goOn), (0, .goOn), (0, .goOn), (0, .goOn), (1, addsNote 3 300), (0, .goOn),
    (1, .goOn), (1, .goOn), (1, .goOn)]

/-- The third note waits for its timer, which is the only one of its window. -/
theorem third_note_waits :
    Threads.Run {} 2 (two.played {} pushing) (two.play {} pushing) ∧
      (∀ h ∈ two.played {} pushing, h.overlaps = false) ∧
      (two.play {} pushing).pieces = [] ∧
      (Threads.emittedOn "notes" (two.played {} pushing)).length = 3 ∧
      (Threads.appliedOn "notes" (two.played {} pushing)).length = 2 ∧
      (Threads.emittedOn "notes" (two.played {} pushing)).Perm
        (Threads.appliedOn "notes" (two.played {} pushing) ++
          (two.play {} pushing).store.batch.queuedOn "notes") ∧
      (∃ timer ∈ (two.play {} pushing).timers, timer.1 = 1) ∧
      ((two.play {} pushing).timers.map Prod.fst).Nodup := by
  have hrun : Threads.Run {} 2 (two.played {} pushing) (two.play {} pushing) :=
    Threads.Run.start.play pushing
  have hapart : ∀ h ∈ two.played {} pushing, h.overlaps = false := by decide +kernel
  have hrests : (two.play {} pushing).pieces = [] :=
    List.eq_nil_of_length_eq_zero (by decide +kernel)
  have hqueue : (two.play {} pushing).store.batch.queue ≠ [] :=
    List.isEmpty_eq_false_iff.mp (by decide +kernel)
  have hwindow : (two.play {} pushing).store.batch.window = 1 := by decide +kernel
  obtain ⟨hall, hheld, hwaits, hnodup⟩ := Threads.Run.batches_keep_all hrun (by decide)
  have haccount := hall "notes"
  rw [hheld hrests, List.nil_append] at haccount
  obtain ⟨-, timer, hruns, hown, -⟩ := hwaits (by rw [hrests]; exact List.forall_mem_nil _) hqueue
  exact ⟨hrun, hapart, hrests, by decide +kernel, by decide +kernel, haccount,
    ⟨timer, hruns, hown.trans hwindow⟩, (hnodup hapart).2.1⟩

/-- The window is closed before the thread that has added a note schedules it. -/
def emptied : List (Nat × Act) :=
  [(0, addsNote 1 100), (1, .flush), (1, .goOn), (1, .goOn), (1, .goOn), (1, .goOn), (0, .goOn),
    (0, .goOn), (0, .goOn)]

/-- The window is closed before the thread that has scheduled it reads its number. Another note
follows. -/
def doubled : List (Nat × Act) :=
  [(0, addsNote 1 100), (0, .goOn), (1, .flush), (1, .goOn), (1, .goOn), (1, .goOn), (1, .goOn),
    (0, .goOn), (0, .goOn), (0, addsNote 2 200), (0, .goOn), (0, .goOn), (0, .goOn)]

/-- All has been done. In the one run a window is scheduled in which nothing waits, in the other it
has two timers. -/
theorem pushes_across_drains :
    Threads.Run {} 2 (two.played {} emptied) (two.play {} emptied) ∧
      (two.play {} emptied).pieces = [] ∧ (two.play {} emptied).store.batch.queue = [] ∧
      (two.play {} emptied).store.batch.scheduled = true ∧
    Threads.Run {} 2 (two.played {} doubled) (two.play {} doubled) ∧
      (two.play {} doubled).pieces = [] ∧ (two.play {} doubled).timers = [(1, 100), (1, 100)] :=
  ⟨Threads.Run.start.play emptied, List.eq_nil_of_length_eq_zero (by decide +kernel),
    List.eq_nil_of_length_eq_zero (by decide +kernel), by decide +kernel,
    Threads.Run.start.play doubled, List.eq_nil_of_length_eq_zero (by decide +kernel),
    by decide +kernel⟩

end Notes

end LiveQuery
