import LiveQuery.Proofs.Cache.Lives
import LiveQuery.Proofs.Cache.SingleFlight
import LiveQuery.Proofs.Cache.View

/-!
# When fetches begin

A fetch begins in the act that plans to hand it out (`Happening.begun`). Acts keep an exact
account of outstanding fetches: what is outstanding after an act, together with what it
answers, is what begins in it together with what was outstanding before
(`World.outstanding_of_act`). So the one move of the store's own in an act says which fetch
begins in it, if any (`Happening.Occurs.exists_own`), and it begins for a life that goes on
(`Happening.Occurs.living_of_begun`).
-/

namespace LiveQuery

def Move.begun? : Move → Option Request
  | .begun request => some request
  | _ => none

def Move.answered? : Move → Option Request
  | .answered request _ => some request
  | _ => none

/-- What an act leaves of the agenda, apart from what it plans. -/
def World.rest (w : World) : Act → List Turn
  | .goOn | .giveBack => w.agenda.tail
  | _ => w.agenda

namespace Happening

def planned (h : Happening) : List Turn :=
  h.after.agenda.take (h.after.agenda.length - (h.before.rest h.act).length)

def begun (h : Happening) : List Request := h.planned.filterMap Turn.launched?

end Happening

/-! ## The account of outstanding fetches -/

namespace Cache

variable {setup : Setup} {c c' : Cache} {moves : List Move}

theorem Step.outstanding {move : Move} (h : Step setup c move c') :
    c'.outstanding + ↑move.answered?.toList = ↑move.begun?.toList + c.outstanding := by
  cases h with
  | born | deferred | merged | vacuumed => simp [Move.answered?, Move.begun?, adopt, set, retire]
  | begun => simp [Move.answered?, Move.begun?]
  | landed asked | dropped asked =>
    simp only [Move.answered?, Move.begun?, asked, Option.toList_some, Option.toList_none,
      Multiset.coe_nil, zero_add, Multiset.coe_singleton]
    rw [add_comm, Multiset.singleton_add]

theorem Steps.outstanding (h : Steps setup c moves c') :
    c'.outstanding + ↑(moves.filterMap Move.answered?) =
      ↑(moves.filterMap Move.begun?) + c.outstanding := by
  have hcons : ∀ (f : Move → Option Request) (move : Move) (moves : List Move),
      (↑((move :: moves).filterMap f) : Multiset Request) =
        ↑(f move).toList + ↑(moves.filterMap f) := by
    intro f move moves
    rw [List.filterMap_cons, Multiset.coe_add]
    cases f move <;> rfl
  induction h with
  | refl c => simp
  | @head c c' c'' move moves hstep _ ih =>
    rw [hcons, hcons]
    have hfirst := hstep.outstanding
    calc c''.outstanding + (↑move.answered?.toList + ↑(moves.filterMap Move.answered?))
        = c''.outstanding + ↑(moves.filterMap Move.answered?) + ↑move.answered?.toList := by
          ac_rfl
      _ = ↑(moves.filterMap Move.begun?) + (c'.outstanding + ↑move.answered?.toList) := by
          rw [ih]
          ac_rfl
      _ = ↑move.begun?.toList + ↑(moves.filterMap Move.begun?) + c.outstanding := by
          rw [hfirst]
          ac_rfl

end Cache

/-! ## The account of an act -/

namespace World

variable {setup : Setup} {w w' : World} {a : Act} {signal : Option Signal}

theorem fetched_run (s : Store) (job : Work) :
    (s.run setup job).2.2.toList.flatMap Signal.fetched = job.launched?.toList := by
  cases job with
  | call t listener payload =>
    unfold Store.run
    dsimp only
    split <;> rfl
  | bind name =>
    unfold Store.run
    dsimp only
    split <;> rfl
  | keepBinding name =>
    unfold Store.run
    dsimp only
    split <;> rfl
  | launch | startTimer | refetch | apply => rfl

theorem agenda_after (signal : Option Signal) :
    ∃ new, ((signal.map w.asked).getD w).agenda = new ++ w.agenda ∧
      new.filterMap Turn.launched? = [] := by
  cases signal with
  | none => exact ⟨[], rfl, rfl⟩
  | some signal =>
    cases signal with
    | call listener payload => exact ⟨[.outside], rfl, rfl⟩
    | bind name => exact ⟨[.outside], rfl, rfl⟩
    | fetch | timer | unbind => exact ⟨[], rfl, rfl⟩

theorem outstanding_after (signal : Option Signal) :
    (↑((signal.map w.asked).getD w).outstanding : Multiset Request) =
      ↑(signal.toList.flatMap Signal.fetched) + ↑w.outstanding :=
  congrArg Cache.outstanding (w.cache_after signal)

/-- Does an act put new turns on the agenda so that the account of outstanding fetches is
right? -/
def Accounted (w : World) (a : Act) (w' : World) : Prop :=
  ∃ new, w'.agenda = new ++ w.rest a ∧
    (↑w'.outstanding : Multiset Request) + ↑((w.reaching a).filterMap Move.answered?) =
      ↑(new.filterMap Turn.launched?) + ↑w.outstanding

theorem accounted_proceed {base : World} {next : Store × List Work}
    (agenda : base.agenda = w.rest a)
    (outstanding : (↑base.outstanding : Multiset Request) +
      ↑((w.reaching a).filterMap Move.answered?) = ↑w.outstanding) :
    w.Accounted a (base.proceed next) := by
  refine ⟨next.2.map .work, by rw [← agenda]; rfl, ?_⟩
  rw [outstanding_proceed, add_assoc, outstanding, List.filterMap_map]
  rfl

theorem accounted_goOn {job : Work} {rest : List Turn} (agenda : w.agenda = .work job :: rest)
    {base : World} (hbase : base = { w with agenda := rest }.proceed
      ((w.store.run setup job).1, (w.store.run setup job).2.1)) :
    w.Accounted .goOn (((w.store.run setup job).2.2.map base.asked).getD base) := by
  obtain ⟨new, hnew, hnone⟩ := base.agenda_after (w.store.run setup job).2.2
  have hplanned : base.agenda = (w.store.run setup job).2.1.map .work ++ rest := by
    rw [hbase]
    rfl
  have hreach : (w.reaching .goOn).filterMap Move.answered? = [] := by
    rw [reaching, agenda]
    cases job <;> rfl
  have hhanded : (↑w.outstanding : Multiset Request) =
      ↑job.launched?.toList + ↑(outstanding { w with agenda := rest }) := by
    rw [outstanding, outstanding, agenda, Multiset.coe_add]
    cases hjob : job.launched? with
    | none => simp [Turn.launched?, hjob]
    | some request => simp [Turn.launched?, hjob]
  refine ⟨new ++ (w.store.run setup job).2.1.map .work, ?_, ?_⟩
  · rw [hnew, hplanned, World.rest, agenda, List.append_assoc]
    rfl
  · have hleft : ((w.store.run setup job).2.1.map Turn.work).filterMap Turn.launched? =
        (w.store.run setup job).2.1.filterMap Work.launched? := by
      rw [List.filterMap_map]
      rfl
    rw [outstanding_after, fetched_run, hbase, outstanding_proceed, hreach, hhanded,
      List.filterMap_append, hnone, List.nil_append, hleft, Multiset.coe_nil, add_zero]
    exact add_left_comm _ _ _

theorem outstanding_of_act (h : w.act? setup a = some (w', signal)) : w.Accounted a w' := by
  have still : ∀ {w' : World}, w'.agenda = w.agenda → w'.requests = w.requests →
      w.rest a = w.agenda → (w.reaching a).filterMap Move.answered? = [] → w.Accounted a w' := by
    intro w' hagenda hrequests hrest hreach
    refine ⟨[], by rw [hagenda, hrest]; rfl, ?_⟩
    rw [hreach, outstanding, outstanding, hagenda, hrequests]
    simp
  cases a with
  | materialize | subscribe | unsubscribe | refetch | emit | flush | mutated =>
    obtain ⟨-, h⟩ := Option.ite_none_right_eq_some.mp h
    cases h
    exact accounted_proceed rfl (by simp [reaching])
  | watch | unwatch | tick =>
    obtain ⟨-, h⟩ := Option.ite_none_right_eq_some.mp h
    cases h
    exact still rfl rfl rfl rfl
  | answered query epoch answer =>
    simp only [act?] at h
    split at h
    · next request hfind =>
      obtain ⟨⟨hidle, -⟩, h⟩ := Option.ite_none_right_eq_some.mp h
      cases h
      have hidle : w.agenda = [] := List.isEmpty_iff.mp hidle
      refine accounted_proceed rfl ?_
      rw [outstanding_eq_cons hfind hidle, reaching, hfind, outstanding, hidle]
      simp [Move.answered?, add_comm]
    · cases h
  | timedOut window =>
    simp only [act?] at h
    split at h
    · obtain ⟨-, h⟩ := Option.ite_none_right_eq_some.mp h
      cases h
      refine accounted_proceed rfl ?_
      simp [reaching, outstanding]
    · cases h
  | goOn =>
    simp only [act?] at h
    split at h
    · next job rest hagenda =>
      cases h
      exact accounted_goOn hagenda rfl
    · cases h
  | giveBack =>
    simp only [act?] at h
    split at h
    · next rest hagenda =>
      cases h
      refine ⟨[], by simp [World.rest, hagenda], ?_⟩
      have hsame : outstanding { w with agenda := rest } = w.outstanding := by
        rw [outstanding, outstanding, hagenda]
        rfl
      simp [reaching, hsame]
    · cases h

end World

/-! ## What happens -/

variable {setup : Setup} {history : List Happening} {w : World} {h : Happening}
variable {query : QueryId} {epoch : Nat} {p q : Query} {request : Request}

namespace Happening

theorem planned_eq {new : List Turn} (agenda : h.after.agenda = new ++ h.before.rest h.act) :
    h.planned = new := by
  rw [planned, agenda, List.length_append, Nat.add_sub_cancel_right]
  exact List.take_left' rfl

/-- Can something happen, in a world whose lives are in order? -/
structure Occurs (setup : Setup) (h : Happening) : Prop where
  lives : h.before.cache.Lives
  act : h.before.act? setup h.act = some (h.after, h.signal)

end Happening

theorem Run.occurs (run : Run setup history w) : ∀ h ∈ history, h.Occurs setup := by
  induction run with
  | start => exact List.forall_mem_nil _
  | act hrun hact ih =>
    intro h hmem
    rcases List.mem_append.mp hmem with hmem | hmem
    · exact ih h hmem
    · rw [List.mem_singleton.mp hmem]
      exact ⟨hrun.lives, hact⟩

theorem Run.concat (run : Run setup (history ++ [h]) w) :
    Run setup history h.before ∧ h.Occurs setup ∧ w = h.after := by
  obtain ⟨hrun, hact, hw⟩ := run_concat.mp run
  exact ⟨hrun, ⟨hrun.lives, hact⟩, hw⟩

theorem World.query?_cache : w.cache.query? query = w.store.query? query := Store.query?_cache

namespace Happening.Occurs

theorem reaching_cases (occurs : h.Occurs setup) (name : String) :
    (h.before.reaching h.act = [] ∧ (∀ query epoch answer, h.act ≠ .answered query epoch answer) ∧
        h.changes name = []) ∨
      (∃ request answer, h.before.reaching h.act = [.answered request answer] ∧
        h.act = .answered request.query request.epoch answer ∧ h.changes name = []) ∨
      ∃ service changes, h.before.reaching h.act = [.merged service changes] ∧
        (∀ query epoch answer, h.act ≠ .answered query epoch answer) ∧
        h.changes name = if service = name then changes else [] := by
  have hanswer : ∀ {query epoch answer}, h.act = .answered query epoch answer →
      ∃ request, h.before.reaching h.act = [.answered request answer] := by
    intro query epoch answer ha
    have hact := occurs.act
    rw [ha] at hact ⊢
    obtain ⟨request, -, -, hone⟩ := World.reaching_answered hact
    exact ⟨request, hone⟩
  rcases h.reaching_cases name with ⟨hnone, hchanges⟩ | hone | ⟨service, changes, hone, hchanges⟩
  · refine Or.inl ⟨hnone, fun query epoch answer ha => ?_, hchanges⟩
    obtain ⟨request, hanswered⟩ := hanswer ha
    rw [hnone] at hanswered
    cases hanswered
  · exact Or.inr (Or.inl hone)
  · refine Or.inr (Or.inr ⟨service, changes, hone, fun query epoch answer ha => ?_, hchanges⟩)
    obtain ⟨request, hanswered⟩ := hanswer ha
    rw [hone] at hanswered
    cases hanswered

theorem not_isInner_of_mem_reaching (occurs : h.Occurs setup) {move : Move}
    (hmem : move ∈ h.before.reaching h.act) : ¬move.IsInner := by
  rcases occurs.reaching_cases "" with ⟨hnone, -⟩ | ⟨request, answer, hone, -⟩ |
    ⟨service, changes, hone, -⟩
  · rw [hnone] at hmem
    cases hmem
  · rw [hone] at hmem
    rw [List.mem_singleton.mp hmem]
    exact id
  · rw [hone] at hmem
    rw [List.mem_singleton.mp hmem]
    exact id

theorem act_of_mem_reaching (occurs : h.Occurs setup)
    {answer : Except Failure (QueryData × Fields)}
    (hmem : .answered request answer ∈ h.before.reaching h.act) :
    h.act = .answered request.query request.epoch answer := by
  rcases occurs.reaching_cases "" with ⟨hnone, -⟩ | ⟨r, a, hone, hact, -⟩ |
    ⟨service, changes, hone, -⟩
  · rw [hnone] at hmem
    cases hmem
  · rw [hone] at hmem
    cases List.mem_singleton.mp hmem
    exact hact
  · rw [hone] at hmem
    cases List.mem_singleton.mp hmem

theorem outstanding (occurs : h.Occurs setup) :
    (↑h.after.outstanding : Multiset Request) +
        ↑((h.before.reaching h.act).filterMap Move.answered?) =
      ↑h.begun + ↑h.before.outstanding := by
  obtain ⟨new, hagenda, hcount⟩ := World.outstanding_of_act occurs.act
  rw [begun, planned_eq hagenda]
  exact hcount

/-- What is outstanding afterwards has been so before, or has just begun. -/
theorem begun_or_outstanding (occurs : h.Occurs setup) (hr : request ∈ h.after.outstanding) :
    request ∈ h.begun ∨ request ∈ h.before.outstanding := by
  have hmem : request ∈ (↑h.begun : Multiset Request) + ↑h.before.outstanding := by
    rw [← occurs.outstanding]
    exact Multiset.mem_add.mpr (Or.inl hr)
  exact Multiset.mem_add.mp hmem

theorem exists_own (occurs : h.Occurs setup) :
    ∃ own : Option Move, (∀ move ∈ own, h.before.Causes h.act move) ∧
      Cache.Steps setup h.before.cache (h.before.reaching h.act ++ own.toList) h.after.cache ∧
      h.begun = (own.bind Move.begun?).toList := by
  obtain ⟨own, hcauses, hsteps⟩ := World.caused_steps_of_act occurs.lives occurs.act
  refine ⟨own, hcauses, hsteps, ?_⟩
  have hbegun : (h.before.reaching h.act).filterMap Move.begun? = [] := by
    refine List.filterMap_eq_nil_iff.mpr fun move hmem => ?_
    have hnot := occurs.not_isInner_of_mem_reaching hmem
    cases move with
    | answered | merged => rfl
    | born | begun | deferred | vacuumed => exact absurd trivial hnot
  have hanswered : own.toList.filterMap Move.answered? = [] := by
    refine List.filterMap_eq_nil_iff.mpr fun move hmem => ?_
    have hinner := (hcauses move (Option.mem_toList.mp hmem)).isInner
    cases move with
    | answered => exact hinner.elim
    | born | begun | deferred | merged | vacuumed => rfl
  have hown : own.toList.filterMap Move.begun? = (own.bind Move.begun?).toList := by
    cases own with
    | none => rfl
    | some move =>
      show [move].filterMap Move.begun? = (move.begun?).toList
      cases move <;> rfl
  have haccount := hsteps.outstanding
  rw [List.filterMap_append, hanswered, List.append_nil, List.filterMap_append, hbegun,
    List.nil_append, hown] at haccount
  have hsame : (↑h.begun : Multiset Request) = ↑(own.bind Move.begun?).toList :=
    add_right_cancel (occurs.outstanding.symm.trans haccount)
  have hperm := Multiset.coe_eq_coe.mp hsame
  cases hb : own.bind Move.begun? with
  | none =>
    rw [hb] at hperm
    exact hperm.eq_nil
  | some request =>
    rw [hb] at hperm
    exact List.perm_singleton.mp hperm

theorem lives_after (occurs : h.Occurs setup) : h.after.cache.Lives := by
  obtain ⟨own, -, hsteps, -⟩ := occurs.exists_own
  exact occurs.lives.steps hsteps

theorem nextEpoch_le (occurs : h.Occurs setup) :
    h.before.store.nextEpoch ≤ h.after.store.nextEpoch := by
  obtain ⟨own, -, hsteps, -⟩ := occurs.exists_own
  exact hsteps.nextEpoch_le

/-- An answer ends the fetch it is for, and all other fetches stay outstanding. -/
theorem flights (occurs : h.Occurs setup) (query : QueryId) (epoch : Nat) :
    h.after.cache.flights query epoch + (if h.act.isAnswerTo query epoch then 1 else 0) =
      h.begun.countP (·.isFor query epoch) + h.before.cache.flights query epoch := by
  have hanswers : ((h.before.reaching h.act).filterMap Move.answered?).countP
      (·.isFor query epoch) = if h.act.isAnswerTo query epoch then 1 else 0 := by
    have hquiet : (∀ x e answer, h.act ≠ .answered x e answer) →
        h.act.isAnswerTo query epoch = false := by
      intro hnot
      unfold Act.isAnswerTo
      split
      · next ha => exact absurd ha (hnot _ _ _)
      · rfl
    rcases occurs.reaching_cases "" with ⟨hnone, hnot, -⟩ | ⟨request, answer, hone, ha, -⟩ |
      ⟨service, changes, hone, hnot, -⟩
    · rw [hnone, hquiet hnot]
      rfl
    · rw [hone, ha, Act.isAnswerTo]
      show [request].countP _ = _
      rw [List.countP_singleton]
      rfl
    · rw [hone, hquiet hnot]
      rfl
  have hcount := congrArg (Multiset.countP fun r : Request => r.isFor query epoch = true)
    occurs.outstanding
  rw [Multiset.countP_add, Multiset.countP_add] at hcount
  simp only [Multiset.coe_countP, Bool.decide_eq_true, hanswers] at hcount
  simpa only [Cache.flights, World.cache, Store.cache, Multiset.coe_countP,
    Bool.decide_eq_true] using hcount

theorem exists_step_of_begun (occurs : h.Occurs setup) (begun : request ∈ h.begun) :
    ∃ mid, Cache.Steps setup h.before.cache (h.before.reaching h.act) mid ∧
      Cache.Step setup mid (.begun request) h.after.cache := by
  obtain ⟨own, -, hsteps, hbegun⟩ := occurs.exists_own
  rw [hbegun] at begun
  obtain ⟨move, rfl, hmove⟩ := Option.bind_eq_some_iff.mp (Option.mem_toList.mp begun)
  obtain ⟨mid, hreaching, hown⟩ := hsteps.exists_of_append
  cases move with
  | begun r =>
    obtain rfl := Option.some.inj hmove
    exact ⟨mid, hreaching, hown.step_of_singleton⟩
  | born | deferred | answered | merged | vacuumed => cases hmove

theorem living_of_begun (occurs : h.Occurs setup) (begun : request ∈ h.begun) :
    ∃ q, h.after.store.query? request.query = some q ∧ q.epoch = request.epoch := by
  obtain ⟨mid, -, hstep⟩ := occurs.exists_step_of_begun begun
  exact World.query?_cache ▸ hstep.living_of_begun

theorem not_vacuumed (occurs : h.Occurs setup) {own : Option Move}
    (hsteps : Cache.Steps setup h.before.cache (h.before.reaching h.act ++ own.toList)
      h.after.cache) (after : h.after.store.query? query = some p) :
    .vacuumed query ∉ h.before.reaching h.act ++ own.toList := by
  intro hmem
  rcases List.mem_append.mp hmem with hmem | hmem
  · exact occurs.not_isInner_of_mem_reaching hmem trivial
  · obtain rfl := Option.mem_toList.mp hmem
    obtain ⟨mid, hreaching, hown⟩ := hsteps.exists_of_append
    obtain ⟨home, hp⟩ := occurs.lives_after.query?_eq_some.mp (World.query?_cache.trans after)
    have hended : h.after.cache.find? home query = none :=
      hown.step_of_singleton.find?_of_vacuumed (occurs.lives.steps hreaching)
    rw [hended] at hp
    cases hp

theorem exists_find? (occurs : h.Occurs setup)
    (before : h.before.store.query? query = some q)
    (after : h.after.store.query? query = some p) :
    ∃ name, h.before.cache.find? name query = some q ∧
      h.after.cache.find? name query = some p ∧ p.life = q.life := by
  obtain ⟨own, -, hsteps, -⟩ := occurs.exists_own
  obtain ⟨name, hq⟩ := occurs.lives.query?_eq_some.mp (World.query?_cache.trans before)
  have hstays := occurs.not_vacuumed hsteps after
  obtain ⟨p', hp', hlife⟩ := hsteps.life_of_not_vacuumed occurs.lives hstays hq
  have hsame := occurs.lives_after.query?_eq_some.mpr ⟨name, hp'⟩
  rw [World.query?_cache, after] at hsame
  obtain rfl := Option.some.inj hsame
  exact ⟨name, hq, hp', hlife⟩

theorem life_eq (occurs : h.Occurs setup) (before : h.before.store.query? query = some q)
    (after : h.after.store.query? query = some p) : p.life = q.life := by
  obtain ⟨_, -, -, hlife⟩ := occurs.exists_find? before after
  exact hlife

theorem of_born (occurs : h.Occurs setup) (before : h.before.store.query? query = none)
    (after : h.after.store.query? query = some p) :
    ∃ ref, h.act = .materialize ref ∧ ref.id = query ∧
      h.before.store.nextEpoch ≤ p.epoch ∧ h.begun = [] := by
  obtain ⟨own, hcauses, hsteps, hbegun⟩ := occurs.exists_own
  obtain ⟨name, hp⟩ := occurs.lives_after.query?_eq_some.mp (World.query?_cache.trans after)
  have hnew : h.before.cache.find? name query = none :=
    occurs.lives.find?_eq_none (World.query?_cache.trans before)
  have hborn : ∃ ref : QueryRef, ref.id = query ∧ own = some (.born ref) := by
    by_contra hnone
    have hunborn : ∀ ref : QueryRef, ref.id = query →
        .born ref ∉ h.before.reaching h.act ++ own.toList := by
      intro ref hid hmem
      rcases List.mem_append.mp hmem with hmem | hmem
      · exact occurs.not_isInner_of_mem_reaching hmem trivial
      · exact hnone ⟨ref, hid, Option.mem_toList.mp hmem⟩
    obtain ⟨q, hq, -⟩ := hsteps.life_of_not_born occurs.lives hunborn hp
    rw [hnew] at hq
    cases hq
  obtain ⟨ref, hid, rfl⟩ := hborn
  refine ⟨ref, hcauses _ rfl, hid, ?_, hbegun⟩
  rcases hsteps.later_or_life occurs.lives hp with hlater | ⟨q, hq, -⟩
  · exact hlater
  · rw [hnew] at hq
    cases hq

end Happening.Occurs

end LiveQuery
