import LiveQuery.Proofs.Store.Agenda
import Mathlib.Logic.Relation

/-!
# Settling

If the listeners and the backend that are called only give control back, the store goes on with its
work until nothing is left to do (`World.exists_settled`). What a piece of work leaves to be done is
always of a simpler kind: applying changes leaves fetches to be begun, beginning a fetch leaves
calls and a request to hand out, and these leave nothing.
-/

namespace LiveQuery

/-- The store does the next piece of its work, or whoever has been called gives control back. -/
def World.Resumes (setup : Setup) (w w' : World) : Prop :=
  ∃ a signal, (a = .goOn ∨ a = .giveBack) ∧ w.act? setup a = some (w', signal)

/-- Nothing is left to do, and nobody has called back on the way there. -/
structure World.Settles (setup : Setup) (w w' : World) : Prop where
  path : Relation.ReflTransGen (Resumes setup) w w'
  rests : w'.agenda = []

/-- Can the first thing on the agenda be done, with all that it leaves to be done, whatever comes
after it? -/
def Turn.Clears (setup : Setup) (turn : Turn) : Prop :=
  ∀ (w : World) (rest : List Turn), w.agenda = turn :: rest →
    ∃ w', Relation.ReflTransGen (World.Resumes setup) w w' ∧ w'.agenda = rest

variable {setup : Setup}

theorem Turn.clears_all {turns : List Turn} (clears : ∀ turn ∈ turns, turn.Clears setup)
    (w : World) (rest : List Turn) (agenda : w.agenda = turns ++ rest) :
    ∃ w', Relation.ReflTransGen (World.Resumes setup) w w' ∧ w'.agenda = rest := by
  induction turns generalizing w with
  | nil => exact ⟨w, .refl, agenda⟩
  | cons turn turns ih =>
    rw [List.forall_mem_cons] at clears
    obtain ⟨next, hnext, hagenda⟩ := clears.1 w (turns ++ rest) agenda
    obtain ⟨w', hpath, hrest⟩ := ih clears.2 next hagenda
    exact ⟨w', hnext.trans hpath, hrest⟩

theorem Turn.clears_outside : Turn.outside.Clears setup := by
  intro w rest hagenda
  have hback : w.act? setup .giveBack = some ({ w with agenda := rest }, none) := by
    simp only [World.act?, hagenda]
  exact ⟨_, .single ⟨.giveBack, none, Or.inr rfl, hback⟩, rfl⟩

theorem Turn.clears_work {job : Work}
    (leaves : ∀ s : Store, ∀ next ∈ (s.run setup job).2.1, (Turn.work next).Clears setup) :
    (Turn.work job).Clears setup := by
  intro w rest hagenda
  have hgoes : (w.act? setup .goOn).isSome = true := by
    simp only [World.act?, hagenda, Option.isSome_some]
  obtain ⟨⟨next, signal⟩, hact⟩ := Option.isSome_iff_exists.mp hgoes
  obtain ⟨-, -, given, hgiven, hnext⟩ := World.transition_of_act hact
  have hclears : ∀ turn ∈ given ++ (w.transition setup .goOn).2.map Turn.work,
      turn.Clears setup := by
    intro turn hturn
    rcases List.mem_append.mp hturn with hcontrol | hwork
    · rw [hgiven turn hcontrol]
      exact clears_outside
    · obtain ⟨left, hleft, rfl⟩ := List.mem_map.mp hwork
      rw [World.transition, hagenda] at hleft
      exact leaves w.store left hleft
  rw [World.rest, hagenda, List.tail_cons] at hnext
  obtain ⟨w', hpath, hrest⟩ := clears_all hclears next rest hnext
  exact ⟨w', .head ⟨.goOn, signal, Or.inl rfl, hact⟩ hpath, hrest⟩

theorem Turn.clears_of_not_isErrand {job : Work} (h : job.isErrand = false) :
    (Turn.work job).Clears setup := by
  refine clears_work fun s next hnext => ?_
  cases job with
  | call t l payload =>
    dsimp only [Store.run] at hnext
    split at hnext <;> cases hnext
  | launch => cases hnext
  | startTimer | refetch | apply | bind | keepBinding => cases h

theorem Turn.clears_refetch (query : QueryId) : (Turn.work (.refetch query)).Clears setup :=
  clears_work fun _ next hnext => clears_of_not_isErrand (Store.not_isErrand_refetch next hnext)

theorem Turn.clears_keepBinding (name : String) :
    (Turn.work (.keepBinding name)).Clears setup := by
  refine clears_work fun s next hnext => ?_
  dsimp only [Store.run] at hnext
  split at hnext <;> cases hnext

theorem Turn.clears_apply (name : String) (changes : List Change) :
    (Turn.work (.apply name changes)).Clears setup := by
  refine clears_work fun s next hnext => ?_
  cases herrand : next.isErrand with
  | false => exact clears_of_not_isErrand herrand
  | true =>
    have hrefetch : next ∈ (s.apply setup name changes).2.filter Work.isErrand :=
      List.mem_filter.mpr ⟨hnext, herrand⟩
    rw [Store.filter_isErrand_apply] at hrefetch
    obtain ⟨query, -, rfl⟩ := List.mem_map.mp hrefetch
    exact clears_refetch query

theorem Turn.clears (turn : Turn) : turn.Clears setup := by
  cases turn with
  | outside => exact clears_outside
  | work job =>
    cases job with
    | call | launch => exact clears_of_not_isErrand rfl
    | startTimer window deadline => exact clears_work fun _ _ => nofun
    | refetch query => exact clears_refetch query
    | apply name changes => exact clears_apply name changes
    | keepBinding name => exact clears_keepBinding name
    | bind name =>
      refine clears_work fun s next hnext => ?_
      dsimp only [Store.run] at hnext
      split at hnext
      · cases hnext
      · rw [List.mem_singleton.mp hnext]
        exact clears_keepBinding name

/-- Whatever is to be done comes to an end if nobody calls back. -/
theorem World.exists_settled (setup : Setup) (w : World) : ∃ w', w.Settles setup w' := by
  obtain ⟨w', hpath, hrests⟩ :=
    Turn.clears_all (fun turn _ => turn.clears) w [] (List.append_nil _).symm
  exact ⟨w', hpath, hrests⟩

theorem World.settles_play {w : World} {acts : List Act}
    (onward : ∀ a ∈ acts, a = .goOn ∨ a = .giveBack) (rests : (w.play setup acts).agenda = []) :
    w.Settles setup (w.play setup acts) := by
  refine ⟨?_, rests⟩
  clear rests
  induction acts generalizing w with
  | nil => exact .refl
  | cons a acts ih =>
    rw [List.forall_mem_cons] at onward
    unfold World.play
    rw [List.foldl_cons]
    cases hact : w.act? setup a with
    | none => exact ih onward.2
    | some next =>
      obtain ⟨next, signal⟩ := next
      exact .head ⟨a, signal, onward.1, hact⟩ (ih onward.2)

end LiveQuery
