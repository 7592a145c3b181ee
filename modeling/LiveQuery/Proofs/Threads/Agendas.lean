import LiveQuery.Proofs.Threads.Histories

/-!
# What threads are in the middle of

Between two steps a thread can be in the middle of asking something of the outside, of a push to the
queue or of a drain. Behind that is only work that has not come to its turn, and calls that have not
come back (`Threads.Run.inOrder`). So a thread that takes part in the work of others, in that it
makes a call or begins to push or to drain, is itself in the middle of nothing else.
-/

namespace LiveQuery

namespace Piece

/-- Is a piece work that has not come to its turn, or a call that has not come back? -/
def waits : Piece → Bool
  | .work _ => true
  | .outside => true
  | _ => false

/-- Is a piece part of a push to the queue? -/
def pushes : Piece → Bool
  | .schedule => true
  | .number => true
  | _ => false

/-- Is a piece part of a drain of the queue? -/
def drains : Piece → Bool
  | .unschedule => true
  | .take _ => true
  | _ => false

variable {p : Piece}

theorem not_pushes_of_waits (h : p.waits = true) : p.pushes = false := by
  cases p <;> first | rfl | cases h

theorem not_drains_of_waits (h : p.waits = true) : p.drains = false := by
  cases p <;> first | rfl | cases h

end Piece

/-- Does all wait that a thread has to do, but for what it is in the middle of? -/
def InOrder : List Piece → Prop
  | [] => True
  | .unschedule :: rest => ∃ others, rest = .take [] :: others ∧ ∀ p ∈ others, p.waits = true
  | _ :: rest => ∀ p ∈ rest, p.waits = true

namespace InOrder

variable {agenda rest : List Piece} {piece : Piece}

theorem of_waits (waits : ∀ p ∈ agenda, p.waits = true) : InOrder agenda := by
  cases agenda with
  | nil => trivial
  | cons piece rest =>
    have hrest := (List.forall_mem_cons.mp waits).2
    cases piece with
    | unschedule => cases waits _ List.mem_cons_self
    | work | ask | schedule | number | setTimer | take | outside => exact hrest

theorem waits_of_isOpen (h : InOrder agenda) (isOpen : Shared.isOpen agenda = true) :
    ∀ p ∈ agenda, p.waits = true := by
  cases agenda with
  | nil => exact List.forall_mem_nil _
  | cons piece rest =>
    cases piece with
    | outside => exact List.forall_mem_cons.mpr ⟨rfl, h⟩
    | work | ask | schedule | number | setTimer | unschedule | take => cases isOpen

theorem tail (h : InOrder (piece :: rest)) :
    (∀ p ∈ rest, p.waits = true) ∨
      piece = .unschedule ∧ ∃ others, rest = .take [] :: others ∧ ∀ p ∈ others, p.waits = true := by
  cases piece with
  | unschedule => exact Or.inr ⟨rfl, h⟩
  | work | ask | schedule | number | setTimer | take | outside => exact Or.inl h

end InOrder

namespace Shared

variable {setup : Setup} {m : Shared} {agenda : List Piece} {a : Act} {outcome : Outcome}

theorem inOrder_append {planned rest : List Piece} (planned_waits : ∀ p ∈ planned, p.waits = true)
    (rest_waits : ∀ p ∈ rest, p.waits = true) : InOrder (planned ++ rest) :=
  .of_waits (List.forall_mem_append.mpr ⟨planned_waits, rest_waits⟩)

theorem waits_map (work : List Work) : ∀ p ∈ work.map Piece.work, p.waits = true := by
  intro p hp
  obtain ⟨job, -, rfl⟩ := List.mem_map.mp hp
  rfl

theorem inOrder_ask {signal : Signal} {rest : List Piece}
    (waits : ∀ p ∈ rest, p.waits = true) : InOrder ((m.ask signal).planned ++ rest) := by
  refine inOrder_append ?_ waits
  cases signal <;> simp [ask, Piece.waits]

theorem inOrder_perform {piece : Piece} {rest : List Piece} (before : InOrder (piece :: rest)) :
    InOrder ((m.perform setup piece).planned ++ rest) := by
  cases piece with
  | work job =>
    rw [planned_work, List.append_assoc]
    have hwork := List.forall_mem_append.mpr ⟨waits_map (m.store.run setup job).2.1, before⟩
    cases (m.store.run setup job).2.2 with
    | none => exact .of_waits hwork
    | some signal => exact hwork
  | ask job signal => exact inOrder_ask before
  | schedule =>
    dsimp only [perform]
    split
    · exact .of_waits before
    · exact before
  | number => exact before
  | setTimer window => exact inOrder_ask before
  | unschedule =>
    obtain ⟨others, rfl, hothers⟩ := before
    exact hothers
  | take taken =>
    dsimp only [perform]
    split
    · exact inOrder_append (waits_map _) before
    · exact before
  | outside => exact .of_waits before

theorem inOrder_of_act (h : m.act? setup agenda a = some outcome) (before : InOrder agenda) :
    InOrder (outcome.planned ++ a.rest agenda) := by
  cases a with
  | materialize | subscribe | unsubscribe | refetch | mutated =>
    obtain ⟨hopen, h⟩ := Option.ite_none_right_eq_some.mp h
    cases h
    exact inOrder_append (waits_map _) (before.waits_of_isOpen (by simp_all))
  | watch | unwatch =>
    obtain ⟨-, h⟩ := Option.ite_none_right_eq_some.mp h
    cases h
    exact before
  | emit event =>
    obtain ⟨hopen, h⟩ := Option.ite_none_right_eq_some.mp h
    have hwaits := before.waits_of_isOpen hopen
    split at h
    · cases h
      exact inOrder_append (waits_map _) hwaits
    · cases h
      exact hwaits
  | flush =>
    obtain ⟨hopen, h⟩ := Option.ite_none_right_eq_some.mp h
    cases h
    exact ⟨agenda, rfl, before.waits_of_isOpen hopen⟩
  | answered query epoch answer =>
    simp only [act?] at h
    split at h
    · obtain ⟨⟨hempty, -⟩, h⟩ := Option.ite_none_right_eq_some.mp h
      cases h
      obtain rfl := List.isEmpty_iff.mp hempty
      exact inOrder_append (waits_map _) (List.forall_mem_nil _)
    · cases h
  | timedOut window =>
    simp only [act?] at h
    split at h
    · obtain ⟨hempty, h⟩ := Option.ite_none_right_eq_some.mp h
      obtain rfl := List.isEmpty_iff.mp hempty
      cases h
      split
      · exact ⟨[], rfl, List.forall_mem_nil _⟩
      · trivial
    · cases h
  | tick =>
    cases h
    exact before
  | goOn =>
    cases agenda with
    | nil => cases h
    | cons piece rest =>
      cases piece with
      | outside => cases h
      | work | ask | schedule | number | setTimer | unschedule | take =>
        cases h
        exact inOrder_perform before
  | giveBack =>
    cases agenda with
    | nil => cases h
    | cons piece rest =>
      cases piece with
      | outside =>
        cases h
        exact .of_waits before
      | work | ask | schedule | number | setTimer | unschedule | take => cases h

end Shared

namespace Threads

variable {setup : Setup} {threads : Nat} {history : List Step} {w : Threads} {h : Step}

theorem Run.inOrder (run : Run setup threads history w) : ∀ agenda ∈ w.agendas, InOrder agenda := by
  induction history using List.reverseRecOn generalizing w with
  | nil =>
    obtain rfl := run_nil.mp run
    intro agenda hmem
    rw [(List.mem_replicate.mp hmem).2]
    trivial
  | append_singleton history last ih =>
    obtain ⟨hrun, hoccurs, rfl⟩ := run.concat
    obtain ⟨hagenda, houtcome, hafter⟩ := hoccurs.outcome
    intro agenda hmem
    rw [hafter] at hmem
    rcases List.mem_or_eq_of_mem_set hmem with hbefore | rfl
    · exact ih hrun agenda hbefore
    · exact Shared.inOrder_of_act houtcome (ih hrun _ (List.mem_of_getElem? hagenda))

/-- All that has been planned has been done or is left to do. -/
theorem Run.planned_perm (run : Run setup threads history w) :
    (history.flatMap (·.outcome.planned)).Perm (history.flatMap Step.done ++ w.pieces) := by
  induction history using List.reverseRecOn generalizing w with
  | nil =>
    obtain rfl := run_nil.mp run
    rw [pieces_replicate]
    exact .refl _
  | append_singleton history last ih =>
    obtain ⟨hrun, hoccurs, rfl⟩ := run.concat
    obtain ⟨hbefore, hafter⟩ := hoccurs.pieces
    rw [List.flatMap_append, List.flatMap_singleton, List.flatMap_append, List.flatMap_singleton]
    calc (history.flatMap (·.outcome.planned) ++ last.outcome.planned).Perm
          (history.flatMap Step.done ++ (last.done ++ last.kept) ++ last.outcome.planned) :=
            ((ih hrun).trans (hbefore.append_left _)).append_right _
      _ = history.flatMap Step.done ++ last.done ++ (last.kept ++ last.outcome.planned) := by
            simp only [List.append_assoc]
      _ |>.Perm (history.flatMap Step.done ++ last.done ++ last.after.pieces) :=
            (List.perm_append_comm.trans hafter.symm).append_left _

end Threads

end LiveQuery
