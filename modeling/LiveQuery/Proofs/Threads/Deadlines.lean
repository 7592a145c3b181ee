import LiveQuery.Proofs.Threads.Windows

/-!
# Deadlines, among several threads

A timer is set in the last step of a push, one interval after that step. So if no time passes while
somebody pushes, an event that waits always has somebody about to take it, or a timer of the current
window that is due within one interval, or a push on the way to such a timer (`Shared.InTime`), and
it does not wait for longer. That holds whatever threads do. But a timer that has been started
across a drain belongs to a window that a later event opens anew, and takes that event before its
time (`Notes.second_note_goes_early`). As long as pushes and drains do not overlap, the timers of a
window are started after the event that opens it, and no other timer closes the window
(`Threads.Run.windows_keep_time`).
-/

namespace LiveQuery

/-- Does a piece lead to a timer for an event that has been sent? -/
def Piece.alarming : Piece → Bool
  | .schedule | .number | .setTimer _ => true
  | .work _ | .ask _ _ | .unschedule | .take _ | .outside => false

namespace Shared

/-- Will what has been sent at a time be taken in time? Somebody is about to take it, or a timer of
its window is due by then, or one will be started at once. -/
inductive InTime (m : Shared) (pieces : List Piece) (time limit : Nat) : Prop where
  | taken {p : Piece} (mem : p ∈ pieces) (drains : p.drains = true)
  | timed {timer : Nat × Nat} (runs : timer ∈ m.timers) (own : timer.1 = m.store.batch.window)
      (due : timer.2 ≤ limit)
  | scheduling (now : m.clock ≤ time) (mem : .schedule ∈ pieces)
  | numbering (now : m.clock ≤ time) (scheduled : m.store.batch.scheduled = true)
      (mem : .number ∈ pieces)
  | setting (now : m.clock ≤ time) (scheduled : m.store.batch.scheduled = true)
      (mem : .setTimer m.store.batch.window ∈ pieces)

variable {setup : Setup} {m m' : Shared} {a : Act} {done planned rest others kept : List Piece}
variable {pieces pieces' : List Piece} {time limit : Nat}

theorem InTime.mono (h : m.InTime pieces time limit) (clock : m'.clock = m.clock)
    (window : m'.store.batch.window = m.store.batch.window)
    (scheduled : m.store.batch.scheduled = true → m'.store.batch.scheduled = true)
    (timers : ∀ timer ∈ m.timers, timer.1 = m.store.batch.window → timer ∈ m'.timers)
    (kept : ∀ p ∈ pieces, p.isQueues = true → p ∈ pieces') : m'.InTime pieces' time limit := by
  cases h with
  | @taken p mem drains =>
    refine .taken (kept p mem ?_) drains
    cases p <;> first | rfl | cases drains
  | timed runs own due => exact .timed (timers _ runs own) (own.trans window.symm) due
  | scheduling now mem => exact .scheduling (clock.trans_le now) (kept _ mem rfl)
  | numbering now hscheduled mem =>
    exact .numbering (clock.trans_le now) (scheduled hscheduled) (kept _ mem rfl)
  | setting now hscheduled mem =>
    exact .setting (clock.trans_le now) (scheduled hscheduled) (window ▸ kept _ mem rfl)

theorem InTime.perm (h : m.InTime pieces time limit) (same : pieces.Perm pieces') :
    m.InTime pieces' time limit :=
  h.mono rfl rfl id (fun _ ht _ => ht) fun _ hp _ => same.mem_iff.mp hp

namespace Handles

theorem inTime_of_scheduled (watched : m.store.batch.Watched m.timers ([.schedule] ++ kept))
    (due : ∀ timer ∈ m.timers, timer.2 ≤ m.clock + setup.batchInterval)
    (now : m.clock ≤ time) (scheduled : m.store.batch.scheduled = true) :
    m.InTime kept time (time + setup.batchInterval) := by
  have hkept : ∀ {p}, p ∈ [.schedule] ++ kept → p ≠ .schedule → p ∈ kept := fun hp hne =>
    (List.mem_cons.mp hp).resolve_left hne
  rcases watched.alarmed scheduled with h | h | h | ⟨timer, hruns, hown⟩
  · exact .taken (hkept h nofun) rfl
  · exact .numbering now scheduled (hkept h nofun)
  · exact .setting now scheduled (hkept h nofun)
  · exact .timed hruns hown ((due timer hruns).trans (Nat.add_le_add_right now _))

theorem inTime_or_unscheduled
    (watched : m.store.batch.Watched m.timers ([.schedule] ++ kept))
    (due : ∀ timer ∈ m.timers, timer.2 ≤ m.clock + setup.batchInterval)
    (before : m.InTime ([.schedule] ++ kept) time (time + setup.batchInterval)) :
    m.InTime kept time (time + setup.batchInterval) ∨
      m.clock ≤ time ∧ m.store.batch.scheduled = false := by
  cases before with
  | taken mem drains =>
    rcases List.mem_cons.mp mem with rfl | mem
    · cases drains
    · exact Or.inl (.taken mem drains)
  | timed runs own due => exact Or.inl (.timed runs own due)
  | scheduling now | numbering now | setting now =>
    cases hscheduled : m.store.batch.scheduled with
    | true => exact Or.inl (inTime_of_scheduled watched due now hscheduled)
    | false => exact Or.inr ⟨now, rfl⟩

theorem inTime (h : Handles setup m m' a done planned rest)
    (watched : m.store.batch.Watched m.timers (done ++ (rest ++ others)))
    (due : ∀ timer ∈ m.timers, timer.2 ≤ m.clock + setup.batchInterval)
    (waits : m.store.batch.queue ≠ [])
    (punctual : m.clock ≠ m'.clock → ∀ p ∈ done ++ (rest ++ others), p.alarming = false)
    (before : m.InTime (done ++ (rest ++ others)) time (time + setup.batchInterval)) :
    m'.InTime (planned ++ (rest ++ others)) time (time + setup.batchInterval) := by
  cases h with
  | sent event _ does _ _ left =>
    subst does
    refine before.mono left.clock ?_ ?_ (fun _ ht _ => left.timers ▸ ht)
      fun p hp _ => List.mem_append_right _ hp
    · rw [left.batch]
      rfl
    · rw [left.batch]
      exact id
  | scheduled _ does plans left =>
    subst does
    have hmark : m'.store.batch.scheduled = true := congrArg Batch.scheduled left.batch
    rcases inTime_or_unscheduled watched due before with hkept | ⟨hnow, hunscheduled⟩
    · refine hkept.mono left.clock ?_ (fun _ => hmark) (fun _ ht _ => left.timers ▸ ht)
        fun p hp _ => List.mem_append_right _ hp
      rw [left.batch]
      rfl
    · rw [plans, hunscheduled]
      exact .numbering (left.clock.trans_le hnow) hmark List.mem_cons_self
  | numbered _ does plans left =>
    subst does plans
    have hsame : m'.store.batch.scheduled = m.store.batch.scheduled :=
      congrArg Batch.scheduled left.batch
    have hnumber : ∀ p ∈ [.number] ++ (rest ++ others), p ≠ .number →
        p ∈ [.setTimer m.store.batch.window] ++ (rest ++ others) := fun p hp hne =>
      List.mem_cons_of_mem _ ((List.mem_cons.mp hp).resolve_left hne)
    cases before with
    | taken mem drains => exact .taken (hnumber _ mem (by rintro rfl; cases drains)) drains
    | timed runs own due =>
      exact .timed (left.timers ▸ runs) (own.trans (congrArg Batch.window left.batch).symm) due
    | scheduling now mem => exact .scheduling (left.clock.trans_le now) (hnumber _ mem nofun)
    | numbering now hscheduled mem =>
      refine .setting (left.clock.trans_le now) (hsame.trans hscheduled) ?_
      rw [left.batch]
      exact List.mem_cons_self
    | setting now hscheduled mem =>
      refine .setting (left.clock.trans_le now) (hsame.trans hscheduled) ?_
      rw [left.batch]
      exact hnumber _ mem nofun
  | set window _ does plans left =>
    subst does plans
    have hset : ∀ p ∈ [.setTimer window] ++ (rest ++ others), p ≠ .setTimer window →
        p ∈ [] ++ (rest ++ others) := fun p hp hne => (List.mem_cons.mp hp).resolve_left hne
    have hsame : m'.store.batch.scheduled = m.store.batch.scheduled :=
      congrArg Batch.scheduled left.batch
    have hwindow : m'.store.batch.window = m.store.batch.window :=
      congrArg Batch.window left.batch
    cases before with
    | taken mem drains => exact .taken (hset _ mem (by rintro rfl; cases drains)) drains
    | timed runs own due =>
      exact .timed (left.timers ▸ List.mem_append_left _ runs) (own.trans hwindow.symm) due
    | scheduling now mem => exact .scheduling (left.clock.trans_le now) (hset _ mem nofun)
    | numbering now hscheduled mem =>
      exact .numbering (left.clock.trans_le now) (hsame.trans hscheduled) (hset _ mem nofun)
    | setting now hscheduled mem =>
      rcases List.mem_cons.mp mem with hown | mem
      · cases hown
        exact .timed (left.timers ▸ List.mem_concat_self) hwindow.symm
          (Nat.add_le_add_right now _)
      · exact .setting (left.clock.trans_le now) (hsame.trans hscheduled) (hwindow ▸ mem)
  | flushed _ _ plans | ranOut _ _ _ _ _ _ plans =>
    rw [plans]
    exact .taken List.mem_cons_self rfl
  | missed timer late _ does plans left =>
    subst does plans
    refine before.mono left.clock (congrArg Batch.window left.batch)
      (fun h => (congrArg Batch.scheduled left.batch).trans h) (fun t ht hown => ?_)
      fun p hp _ => hp
    rw [left.timers]
    refine (List.mem_erase_of_ne ?_).mpr ht
    rintro rfl
    exact late hown
  | unscheduled act does plans next left =>
    exact .taken (List.mem_append_right _ (List.mem_append_left _ next)) rfl
  | took taken event queue act waits does plans left =>
    rw [plans]
    exact .taken List.mem_cons_self rfl
  | finished taken act empty => exact absurd empty waits
  | still _ does _ batch timers _ =>
    have hdone := not_isQueues does
    have hkept : ∀ p ∈ done ++ (rest ++ others), p.isQueues = true →
        p ∈ planned ++ (rest ++ others) := by
      intro p hp hqueues
      rcases List.mem_append.mp hp with hp | hp
      · rw [hdone p hp] at hqueues
        cases hqueues
      · exact List.mem_append_right _ hp
    by_cases hclock : m.clock = m'.clock
    · exact before.mono hclock.symm (congrArg Batch.window batch)
        (fun h => (congrArg Batch.scheduled batch).trans h) (fun _ ht _ => timers ▸ ht) hkept
    · have hlate := punctual hclock
      cases before with
      | @taken p mem drains =>
        exact .taken (hkept p mem (by cases p <;> first | rfl | cases drains)) drains
      | timed runs own due =>
        exact .timed (timers ▸ runs) (own.trans (congrArg Batch.window batch).symm) due
      | scheduling _ mem | numbering _ _ mem | setting _ _ mem => cases hlate _ mem

theorem timer_of_runs (h : Handles setup m m' a done planned rest) {timer : Nat × Nat}
    (runs : timer ∈ m'.timers) :
    timer ∈ m.timers ∨ timer.2 = m.clock + setup.batchInterval := by
  cases h with
  | set window _ _ _ left =>
    rw [left.timers] at runs
    rcases List.mem_append.mp runs with hbefore | hnow
    · exact Or.inl hbefore
    · exact Or.inr (congrArg Prod.snd (List.mem_singleton.mp hnow))
  | ranOut _ _ _ _ _ _ _ _ left | missed _ _ _ _ _ left =>
    rw [left.timers] at runs
    exact Or.inl (List.mem_of_mem_erase runs)
  | sent _ _ _ _ _ left | scheduled _ _ _ left | numbered _ _ _ left | flushed _ _ _ _ left
  | unscheduled _ _ _ _ left | took _ _ _ _ _ _ _ left | finished _ _ _ _ _ left =>
    exact Or.inl (left.timers ▸ runs)
  | still _ _ _ _ timers => exact Or.inl (timers ▸ runs)

theorem clock_le (h : Handles setup m m' a done planned rest) : m.clock ≤ m'.clock := by
  cases h with
  | still _ _ _ _ _ clock => exact clock
  | sent _ _ _ _ _ left | scheduled _ _ _ left | numbered _ _ _ left | set _ _ _ _ left
  | flushed _ _ _ _ left | ranOut _ _ _ _ _ _ _ _ left | missed _ _ _ _ _ left
  | unscheduled _ _ _ _ left | took _ _ _ _ _ _ _ left | finished _ _ _ _ _ left =>
    exact left.clock.ge

theorem passes_of_clock (h : Handles setup m m' a done planned rest)
    (passes : m.clock ≠ m'.clock) : ∃ milliseconds, a = .tick milliseconds := by
  cases h with
  | still _ _ _ _ _ _ tick => exact tick passes
  | sent _ _ _ _ _ left | scheduled _ _ _ left | numbered _ _ _ left | set _ _ _ _ left
  | flushed _ _ _ _ left | ranOut _ _ _ _ _ _ _ _ left | missed _ _ _ _ _ left
  | unscheduled _ _ _ _ left | took _ _ _ _ _ _ _ left | finished _ _ _ _ _ left =>
    exact absurd left.clock.symm passes

theorem undrained (h : Handles setup m m' a done planned rest)
    (before : ∀ p ∈ done ++ kept, p.drains = false)
    (stays : m'.store.batch.window = m.store.batch.window) :
    ∀ p ∈ planned ++ kept, p.drains = false := by
  obtain ⟨hdone, hkept⟩ := List.forall_mem_append.mp before
  refine List.forall_mem_append.mpr ⟨?_, hkept⟩
  cases h with
  | sent _ _ _ plans | numbered _ _ plans =>
    rw [plans]
    exact List.forall_mem_singleton.mpr rfl
  | scheduled _ _ plans =>
    rw [plans]
    split
    · exact List.forall_mem_nil _
    · exact List.forall_mem_singleton.mpr rfl
  | set _ _ _ plans | missed _ _ _ _ plans =>
    rw [plans]
    exact List.forall_mem_nil _
  | flushed _ _ _ _ left | ranOut _ _ _ _ _ _ _ _ left =>
    rw [left.batch] at stays
    exact absurd stays (Nat.succ_ne_self _)
  | unscheduled _ does | took _ _ _ _ _ does | finished _ _ _ does =>
    rw [does] at hdone
    cases hdone _ List.mem_cons_self
  | still _ _ plans =>
    exact fun p hp => Piece.not_drains_of_not_isQueues (Piece.not_isQueues_of_isAside (plans p hp))

theorem of_emit (h : Handles setup m m' a done planned rest) {event : Event}
    (emits : a = .emit event) : done = [] ∧ planned = [.schedule] ∧
      (∀ p ∈ rest, p.waits = true) ∧ m.Leaves m' (m.store.batch.send event) m.timers := by
  subst emits
  cases h with
  | sent event act does plans idle left =>
    cases act
    exact ⟨does, plans, idle, left⟩
  | scheduled act | numbered act | set _ act | flushed act | ranOut _ _ _ _ act | missed _ _ act
  | unscheduled act | took _ _ _ act | finished _ act => cases act
  | still silent => exact absurd rfl (silent event)

end Handles

end Shared

namespace Threads

namespace Step

/-- Is a window closed that has been the current one? -/
def Closes (h : Step) (window : Nat) : Prop :=
  h.before.store.batch.window = window ∧ h.after.store.batch.window ≠ window

def taken (h : Step) : List Event := Shared.takenBy h.before.toShared h.done

/-- Does time pass while some thread pushes an event? -/
def delays (h : Step) : Bool :=
  match h.act with
  | .tick _ => h.before.pieces.any Piece.alarming
  | _ => false

end Step

variable {setup : Setup} {threads : Nat} {history before since : List Step} {w : Threads}
variable {h arriving : Step} {event : Event}

theorem Run.timers_due (run : Run setup threads history w) (batches : setup.batchInterval ≠ 0) :
    ∀ timer ∈ w.timers, timer.2 ≤ w.clock + setup.batchInterval := by
  induction history using List.reverseRecOn generalizing w with
  | nil =>
    obtain rfl := run_nil.mp run
    exact List.forall_mem_nil _
  | append_singleton history last ih =>
    have hall := run
    obtain ⟨hrun, -, rfl⟩ := run.concat
    have hhandles := hall.handles batches
    intro timer hruns
    refine Nat.le_trans ?_ (Nat.add_le_add_right hhandles.clock_le _)
    rcases hhandles.timer_of_runs hruns with hbefore | hnow
    · exact ih hrun timer hbefore
    · exact hnow.le

theorem Run.undrained (run : Run setup threads (before ++ arriving :: since) w)
    (batches : setup.batchInterval ≠ 0) (apart : arriving.overlaps = false)
    (emits : arriving.act = .emit event)
    (stays : ∀ h ∈ since, ¬h.Closes arriving.before.store.batch.window) :
    w.store.batch.window = arriving.before.store.batch.window ∧
      ∀ p ∈ w.pieces, p.drains = false := by
  induction since using List.reverseRecOn generalizing w with
  | nil =>
    obtain ⟨hdone, hplanned, hidle, hleft⟩ := (run.handles batches).of_emit emits
    obtain ⟨-, hoccurs, rfl⟩ := run.concat
    obtain ⟨-, hafter⟩ := hoccurs.pieces
    have hkept : ∀ p ∈ arriving.kept, p.drains = false :=
      List.forall_mem_append.mpr ⟨fun p hp => Piece.not_drains_of_waits (hidle p hp),
        arriving.not_drains_of_emits apart emits⟩
    refine ⟨by rw [hleft.batch]; rfl, fun p hp => ?_⟩
    rw [hafter.mem_iff, hplanned] at hp
    rcases List.mem_cons.mp hp with rfl | hp
    · rfl
    · exact hkept p hp
  | append_singleton since last ih =>
    rw [← List.cons_append, ← List.append_assoc] at run
    have hhandles := run.handles batches
    obtain ⟨hrun, hoccurs, rfl⟩ := run.concat
    obtain ⟨hbefore, hafter⟩ := hoccurs.pieces
    obtain ⟨hwindow, hundrained⟩ := ih hrun fun h hmem => stays h (List.mem_append_left _ hmem)
    have hsame : last.after.store.batch.window = last.before.store.batch.window := by
      by_contra hother
      exact stays last List.mem_concat_self ⟨hwindow, hwindow ▸ hother⟩
    refine ⟨hsame.trans hwindow, fun p hp => ?_⟩
    exact hhandles.undrained (fun p hp => hundrained p (hbefore.mem_iff.mpr hp)) hsame p
      (hafter.mem_iff.mp hp)

theorem Run.clock_le (run : Run setup threads (before ++ arriving :: since) w)
    (batches : setup.batchInterval ≠ 0) : arriving.before.clock ≤ w.clock := by
  induction since using List.reverseRecOn generalizing w with
  | nil =>
    have hhandles := run.handles batches
    obtain ⟨-, -, rfl⟩ := run.concat
    exact hhandles.clock_le
  | append_singleton since last ih =>
    rw [← List.cons_append, ← List.append_assoc] at run
    have hhandles := run.handles batches
    obtain ⟨hrun, -, rfl⟩ := run.concat
    exact (ih hrun).trans hhandles.clock_le

theorem Run.not_early (run : Run setup threads (before ++ arriving :: since) w)
    (batches : setup.batchInterval ≠ 0) (apart : ∀ h ∈ before, h.overlaps = false)
    (opens : arriving.before.store.batch.scheduled = false) :
    ∀ timer ∈ w.timers, timer.1 = arriving.before.store.batch.window →
      arriving.before.clock + setup.batchInterval ≤ timer.2 := by
  induction since using List.reverseRecOn generalizing w with
  | nil =>
    have hhandles := run.handles batches
    obtain ⟨hrun, -, rfl⟩ := run.concat
    obtain ⟨hphase, -⟩ := hrun.apart batches apart
    intro timer hruns hown
    rcases hhandles.timer_of_runs hruns with hbefore | hnow
    · have hstarted : arriving.before.store.batch.window ∈ startedIn before := by
        rw [← hown]
        exact (hrun.timers_subperm batches).subset (List.mem_map_of_mem hbefore)
      have halarm := List.mem_append_right
        (arriving.before.pieces.flatMap (·.alarms arriving.before.store.batch.window)) hstarted
      rcases hphase with hpushing | hdraining
      · rcases hpushing.opened _ halarm with hlt | ⟨-, hscheduled⟩
        · exact absurd hlt (Nat.lt_irrefl _)
        · rw [opens] at hscheduled
          cases hscheduled
      · exact absurd (hdraining.opened _ halarm) (Nat.lt_irrefl _)
    · exact hnow.ge
  | append_singleton since last ih =>
    rw [← List.cons_append, ← List.append_assoc] at run
    have hhandles := run.handles batches
    obtain ⟨hrun, -, rfl⟩ := run.concat
    intro timer hruns hown
    rcases hhandles.timer_of_runs hruns with hbefore | hnow
    · exact ih hrun timer hbefore hown
    · exact (Nat.add_le_add_right (hrun.clock_le batches) _).trans hnow.ge

/-- What has arrived has been taken, or waits together with all that came later. -/
theorem Run.taken_or_waits (run : Run setup threads (before ++ arriving :: since) w)
    (batches : setup.batchInterval ≠ 0) (emits : arriving.act = .emit event) :
    sentIn before ++ [event] <+: takenIn (before ++ arriving :: since) ∨
      takenIn (before ++ arriving :: since) <+: sentIn before ∧ w.store.batch.queue ≠ [] := by
  have hqueued := run.sentIn_eq batches
  have hsent : sentIn (before ++ arriving :: since) = sentIn before ++ [event] ++ sentIn since := by
    rw [sentIn, List.flatMap_append, List.flatMap_cons, emits, ← List.append_assoc]
    rfl
  have hthis : sentIn before ++ [event] <+: sentIn (before ++ arriving :: since) :=
    hsent ▸ List.prefix_append _ _
  have htaken : takenIn (before ++ arriving :: since) <+: sentIn (before ++ arriving :: since) :=
    hqueued ▸ List.prefix_append _ _
  rcases List.prefix_or_prefix_of_prefix hthis htaken with h | h
  · exact Or.inl h
  · rcases List.prefix_concat_iff.mp h with hall | hearlier
    · rw [hall]
      exact Or.inl List.prefix_rfl
    · refine Or.inr ⟨hearlier, fun hempty => ?_⟩
      rw [hempty, List.append_nil] at hqueued
      rw [hqueued] at hthis
      have hlength := hthis.length_le.trans hearlier.length_le
      rw [List.length_append] at hlength
      exact absurd hlength (Nat.not_succ_le_self _)

/-- As long as no time passes while somebody pushes, what has arrived and waits will be taken in
time. -/
theorem Run.inTime (run : Run setup threads (before ++ arriving :: since) w)
    (batches : setup.batchInterval ≠ 0) (emits : arriving.act = .emit event)
    (punctual : ∀ h ∈ since, h.delays = false)
    (waits : takenIn (before ++ arriving :: since) <+: sentIn before) :
    w.toShared.InTime w.pieces arriving.before.clock
      (arriving.before.clock + setup.batchInterval) := by
  induction since using List.reverseRecOn generalizing w with
  | nil =>
    obtain ⟨-, hplanned, -, hleft⟩ := (run.handles batches).of_emit emits
    obtain ⟨-, hoccurs, rfl⟩ := run.concat
    obtain ⟨-, hafter⟩ := hoccurs.pieces
    refine .scheduling hleft.clock.le (hafter.mem_iff.mpr ?_)
    rw [hplanned]
    exact List.mem_cons_self
  | append_singleton since last ih =>
    rw [← List.cons_append, ← List.append_assoc] at run waits
    have hhandles := run.handles batches
    obtain ⟨hrun, hoccurs, rfl⟩ := run.concat
    obtain ⟨hbefore, hafter⟩ := hoccurs.pieces
    have hmore : takenIn (before ++ arriving :: since ++ [last]) =
        takenIn (before ++ arriving :: since) ++ takenIn [last] := List.flatMap_append
    have hwaited : takenIn (before ++ arriving :: since) <+: sentIn before :=
      (List.prefix_append _ _).trans (hmore ▸ waits)
    have hqueue : last.before.store.batch.queue ≠ [] := by
      rcases hrun.taken_or_waits batches emits with htaken | ⟨-, hqueue⟩
      · have hlength := htaken.length_le.trans hwaited.length_le
        rw [List.length_append] at hlength
        exact absurd hlength (Nat.not_succ_le_self _)
      · exact hqueue
    have hearlier := ih hrun (fun h hmem => punctual h (List.mem_append_left _ hmem)) hwaited
    refine (hhandles.inTime ((hrun.watched batches).perm hbefore) (hrun.timers_due batches) hqueue
      (fun hpasses p hp => ?_) (hearlier.perm hbefore)).perm hafter.symm
    obtain ⟨milliseconds, hact⟩ := hhandles.passes_of_clock hpasses
    have hlast := punctual last List.mem_concat_self
    unfold Step.delays at hlast
    rw [hact] at hlast
    exact Bool.eq_false_iff.mpr (List.any_eq_false.mp hlast p (hbefore.mem_iff.mpr hp))

theorem Run.closed_of_taken (run : Run setup threads (before ++ arriving :: (since ++ [h])) w)
    (batches : setup.batchInterval ≠ 0) (apart : arriving.overlaps = false)
    (emits : arriving.act = .emit event) (takes : h.taken ≠ []) :
    ∃ closing ∈ since, closing.Closes arriving.before.store.batch.window := by
  rw [← List.cons_append, ← List.append_assoc] at run
  obtain ⟨hrun, hoccurs, -⟩ := run.concat
  obtain ⟨hbefore, -⟩ := hoccurs.pieces
  by_contra hnever
  push Not at hnever
  obtain ⟨-, hundrained⟩ := hrun.undrained batches apart emits hnever
  have hdone : ∀ p ∈ h.done, p.drains = false := fun p hp =>
    hundrained p (hbefore.mem_iff.mpr (List.mem_append_left _ hp))
  unfold Step.taken Shared.takenBy at takes
  split at takes
  · next taken hdoes =>
    rw [hdoes] at hdone
    cases hdone _ List.mem_cons_self
  · exact takes rfl

/-- A window in which an event has arrived is closed by hand or by its own timer, which is due no
earlier than one interval after the event if the event has opened the window. -/
theorem Run.due_of_closes (run : Run setup threads (before ++ arriving :: (since ++ [h])) w)
    (batches : setup.batchInterval ≠ 0) (apart : ∀ h ∈ before, h.overlaps = false)
    (closes : h.Closes arriving.before.store.batch.window) : h.act = .flush ∨
      h.act = .timedOut arriving.before.store.batch.window ∧
        (arriving.before.store.batch.scheduled = false →
          arriving.before.clock + setup.batchInterval ≤ h.before.clock) := by
  rw [← List.cons_append, ← List.append_assoc] at run
  have hhandles := run.handles batches
  obtain ⟨hrun, -, -⟩ := run.concat
  obtain ⟨hwindow, hother⟩ := closes
  rw [← hwindow] at hother ⊢
  rcases hhandles.due_of_close hother with hact | ⟨hact, timer, hruns, hown, hdue⟩
  · exact Or.inl hact
  · refine Or.inr ⟨hact, fun hopens => ?_⟩
    exact (hrun.not_early batches apart hopens timer hruns (hown.trans hwindow)).trans hdue

/-- What arrives in a window is taken after the window has been closed, and that happens by hand or
when the window's own timer runs out, at the earliest one interval after the event that has opened
the window, provided that pushes and drains do not overlap. What has arrived is taken by the time
that the timers due within one interval have run out, provided that no time passes while somebody
pushes: if it still waits, a timer of the current window is due by then, and can close the window on
any thread once it is due. -/
theorem Run.windows_keep_time (run : Run setup threads (before ++ arriving :: since) w)
    (batches : setup.batchInterval ≠ 0) (emits : arriving.act = .emit event) :
    ((∀ h ∈ before ++ arriving :: since, h.overlaps = false) →
      ∀ earlier h later, since = earlier ++ h :: later →
        (h.taken ≠ [] → ∃ closing ∈ earlier,
          closing.Closes arriving.before.store.batch.window) ∧
        (h.Closes arriving.before.store.batch.window → h.act = .flush ∨
          h.act = .timedOut arriving.before.store.batch.window ∧
            (arriving.before.store.batch.scheduled = false →
              arriving.before.clock + setup.batchInterval ≤ h.before.clock))) ∧
    ((∀ h ∈ since, h.delays = false) → (∀ p ∈ w.pieces, p.isQueues = false) →
      (sentIn before ++ [event] <+: takenIn (before ++ arriving :: since) ∨
        ∃ timer ∈ w.timers, timer.1 = w.store.batch.window ∧
          timer.2 ≤ arriving.before.clock + setup.batchInterval ∧
          (timer.2 ≤ w.clock → ∀ thread, w.agendas[thread]? = some [] → ∃ closed outcome,
            w.act? setup thread (.timedOut w.store.batch.window) = some (closed, outcome) ∧
              outcome.planned = [.unschedule, .take []])) ∧
      ((∀ timer ∈ w.timers, arriving.before.clock + setup.batchInterval < timer.2) →
        sentIn before ++ [event] <+: takenIn (before ++ arriving :: since))) := by
  constructor
  · rintro hapart earlier h later rfl
    obtain ⟨hbefore, hafter⟩ := List.forall_mem_append.mp hapart
    rw [← List.cons_append, ← List.append_assoc] at run
    have hrun := run.until
    rw [List.append_assoc, List.cons_append] at hrun
    exact ⟨hrun.closed_of_taken batches (hafter arriving List.mem_cons_self) emits,
      hrun.due_of_closes batches hbefore⟩
  · intro hpunctual hquiet
    have hwaits : takenIn (before ++ arriving :: since) <+: sentIn before → ∃ timer ∈ w.timers,
        timer.1 = w.store.batch.window ∧
          timer.2 ≤ arriving.before.clock + setup.batchInterval := by
      intro hwaits
      cases run.inTime batches emits hpunctual hwaits with
      | timed runs own due => exact ⟨_, runs, own, due⟩
      | scheduling _ mem | numbering _ _ mem | setting _ _ mem => cases hquiet _ mem
      | @taken p mem drains =>
        cases (Piece.not_drains_of_not_isQueues (hquiet p mem)).symm.trans drains
    rcases run.taken_or_waits batches emits with htaken | ⟨hlate, -⟩
    · exact ⟨Or.inl htaken, fun _ => htaken⟩
    · obtain ⟨timer, hruns, hown, hdue⟩ := hwaits hlate
      refine ⟨Or.inr ⟨timer, hruns, hown, hdue, fun hnow thread hidle => ?_⟩, fun hnone => ?_⟩
      · obtain ⟨closed, outcome, hact, -, hplanned⟩ := exists_closed hidle hruns hown hnow
        exact ⟨closed, outcome, hact, hplanned⟩
      · exact absurd (hnone timer hruns) (Nat.not_lt.mpr hdue)

end Threads

namespace Notes

/-- A note is added on one thread, and shown by hand on the other one before its timer runs out. -/
def showing : List (Nat × Act) :=
  [(0, addsNote 1 100), (0, .goOn), (0, .goOn), (0, .goOn), (1, .tick 60), (1, .flush), (1, .goOn),
    (1, .goOn), (1, .goOn), (1, .goOn)]

def crossed : List (Nat × Act) :=
  [(0, addsNote 1 100), (0, .goOn), (1, .flush), (1, .goOn), (1, .goOn), (1, .goOn), (1, .goOn),
    (0, .goOn), (0, .goOn), (1, .tick 60)]

def pausing : List (Nat × Act) :=
  [(0, .goOn), (0, .goOn), (0, .goOn), (1, .tick 40), (1, .timedOut 0)]

def waiting : List (Nat × Act) :=
  pausing ++ (1, .timedOut 1) ::
    [(1, .goOn), (1, .goOn), (1, .goOn), (1, .goOn), (1, .tick 60), (1, .timedOut 1), (1, .goOn),
      (1, .goOn), (1, .goOn), (1, .goOn)]

/-- The second note comes after 60 milliseconds. The timer of the first one takes nothing 40
milliseconds later. The second note is taken, and not before the time is 160. -/
theorem second_note_waits_its_time :
    ∃ arriving : Threads.Step, arriving.act = addsNote 2 200 ∧ arriving.before.clock = 60 ∧
      Threads.Run {} 2 (two.played {} showing ++ arriving :: arriving.after.played {} waiting)
        (two.play {} (showing ++ (0, addsNote 2 200) :: waiting)) ∧
      (∀ earlier h later, arriving.after.played {} waiting = earlier ++ h :: later →
        h.Closes 1 → h.act = .flush ∨ h.act = .timedOut 1 ∧ 160 ≤ h.before.clock) ∧
      Threads.sentIn (two.played {} showing) ++ [⟨"notes", .created, note 2 200 "idea"⟩] <+:
        Threads.takenIn
          (two.played {} showing ++ arriving :: arriving.after.played {} waiting) := by
  have hrun : Threads.Run {} 2 (two.played {} (showing ++ (0, addsNote 2 200) :: waiting))
      (two.play {} (showing ++ (0, addsNote 2 200) :: waiting)) :=
    Threads.Run.start.play (showing ++ (0, addsNote 2 200) :: waiting)
  have hapart : ∀ h ∈ two.played {} (showing ++ (0, addsNote 2 200) :: waiting),
      h.overlaps = false := by
    decide +kernel
  obtain ⟨arriving, hplayed, hbefore, -, hact, hafter⟩ : ∃ arriving : Threads.Step,
      two.played {} (showing ++ (0, addsNote 2 200) :: waiting) =
        two.played {} showing ++ arriving :: arriving.after.played {} waiting ∧ _ :=
    Threads.exists_played (by decide +kernel)
  have hclock : arriving.before.clock = 60 := by
    rw [hbefore]
    decide +kernel
  have hwindow : arriving.before.store.batch.window = 1 := by
    rw [hbefore]
    decide +kernel
  have hopens : arriving.before.store.batch.scheduled = false := by
    rw [hbefore]
    decide +kernel
  have hpunctual : ∀ h ∈ arriving.after.played {} waiting, h.delays = false := by
    rw [hafter]
    decide +kernel
  have hrests : (two.play {} (showing ++ (0, addsNote 2 200) :: waiting)).pieces = [] :=
    List.eq_nil_of_length_eq_zero (by decide +kernel)
  have hnone : ∀ timer ∈ (two.play {} (showing ++ (0, addsNote 2 200) :: waiting)).timers,
      60 + 100 < timer.2 := by
    decide +kernel
  rw [hplayed] at hrun hapart
  obtain ⟨htime, hall⟩ := Threads.Run.windows_keep_time hrun (by decide) hact
  rw [hclock] at htime hall
  rw [hwindow] at htime
  refine ⟨arriving, hact, hclock, hrun, fun earlier h later hsplit hcloses => ?_, ?_⟩
  · obtain ⟨-, hclosed⟩ := htime hapart earlier h later hsplit
    exact (hclosed hcloses).imp_right (And.imp_right (· hopens))
  · exact (hall hpunctual (by rw [hrests]; exact List.forall_mem_nil _)).2 hnone

/-- The second note opens a window after 60 milliseconds. That window is closed by a timer, and the
note is taken, when the time is 100. -/
theorem second_note_goes_early :
    ∃ arriving : Threads.Step, arriving.act = addsNote 2 200 ∧ arriving.before.clock = 60 ∧
      arriving.before.store.batch.scheduled = false ∧ arriving.before.store.batch.window = 1 ∧
      Threads.Run {} 2 (two.played {} crossed ++ arriving :: arriving.after.played {} waiting)
        (two.play {} (crossed ++ (0, addsNote 2 200) :: waiting)) ∧
      (∃ h ∈ arriving.after.played {} waiting, h.Closes 1 ∧ h.act = .timedOut 1 ∧
        h.before.clock = 100) ∧
      ∃ h ∈ arriving.after.played {} waiting, h.taken.length = 1 ∧ h.before.clock = 100 := by
  have hrun : Threads.Run {} 2 (two.played {} (crossed ++ (0, addsNote 2 200) :: waiting))
      (two.play {} (crossed ++ (0, addsNote 2 200) :: waiting)) :=
    Threads.Run.start.play (crossed ++ (0, addsNote 2 200) :: waiting)
  obtain ⟨arriving, hplayed, hbefore, -, hact, hafter⟩ : ∃ arriving : Threads.Step,
      two.played {} (crossed ++ (0, addsNote 2 200) :: waiting) =
        two.played {} crossed ++ arriving :: arriving.after.played {} waiting ∧ _ :=
    Threads.exists_played (by decide +kernel)
  rw [hplayed] at hrun
  refine ⟨arriving, hact, ?_, ?_, ?_, hrun, ?_, ?_⟩
  · rw [hbefore]
    decide +kernel
  · rw [hbefore]
    decide +kernel
  · rw [hbefore]
    decide +kernel
  · obtain ⟨h, hlater, hthen, -, hout, hnext⟩ : ∃ h : Threads.Step,
        arriving.after.played {} waiting =
          arriving.after.played {} pausing ++ h :: h.after.played {} _ ∧ _ :=
      Threads.exists_played (by rw [hafter]; decide +kernel)
    rw [hafter] at hthen hnext
    rw [hlater]
    refine ⟨h, List.mem_append_right _ List.mem_cons_self, ⟨?_, ?_⟩, hout, ?_⟩
    · rw [hthen]
      decide +kernel
    · rw [hnext]
      decide +kernel
    · rw [hthen]
      decide +kernel
  · rw [hafter]
    decide +kernel

end Notes

end LiveQuery
