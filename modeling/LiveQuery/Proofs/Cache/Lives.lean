import LiveQuery.Proofs.Cache.Moves

/-!
# Lives through moves

What lives after some moves has been born in them, with an epoch given out meanwhile, or has
lived before (`Cache.Steps.later_or_life`, `Cache.Steps.life_of_not_born`). And a life goes on
until its query is vacuumed (`Cache.Steps.life_of_not_vacuumed`).
-/

namespace LiveQuery

namespace Cache

variable {setup : Setup} {c c' : Cache} {move : Move} {moves : List Move}
variable {name : String} {query x : QueryId} {p q : Query}

theorem Step.nextEpoch_le (h : Step setup c move c') : c.nextEpoch ≤ c'.nextEpoch := by
  cases h with
  | born => exact Nat.le_succ _
  | begun | deferred | landed | dropped | merged | vacuumed => exact Nat.le_refl _

theorem Steps.nextEpoch_le (h : Steps setup c moves c') : c.nextEpoch ≤ c'.nextEpoch := by
  induction h with
  | refl c => exact Nat.le_refl _
  | head hstep _ ih => exact Nat.le_trans hstep.nextEpoch_le ih

/-- What lives after some moves has lived before, or has an epoch given out meanwhile. -/
theorem Steps.later_or_life (lives : c.Lives) (h : Steps setup c moves c')
    (hp : c'.find? name x = some p) :
    c.nextEpoch ≤ p.epoch ∨ ∃ q, c.find? name x = some q ∧ q.life = p.life := by
  induction h with
  | refl c => exact Or.inr ⟨p, hp, rfl⟩
  | head hstep _ ih =>
    rcases ih (lives.step hstep) hp with hlater | ⟨q, hq, hlife⟩
    · exact Or.inl (Nat.le_trans hstep.nextEpoch_le hlater)
    · rcases hstep.born_or_life lives hq with ⟨ref, -, rfl⟩ | ⟨r, hr, hrlife⟩
      · exact Or.inl (Nat.le_of_eq (congrArg Life.epoch hlife))
      · exact Or.inr ⟨r, hr, hrlife.trans hlife⟩

theorem Step.life_of_not_born (lives : c.Lives) (h : Step setup c move c')
    (unborn : ∀ ref : QueryRef, ref.id = x → move ≠ .born ref)
    (hp : c'.find? name x = some p) : ∃ q, c.find? name x = some q ∧ q.life = p.life := by
  rcases h.born_or_life lives hp with ⟨ref, rfl, -⟩ | hlife
  · cases h
    rcases find?_adopt.mp hp with ⟨-, rfl, -⟩ | ⟨-, hp⟩
    · exact absurd rfl (unborn ref rfl)
    · exact ⟨p, hp, rfl⟩
  · exact hlife

theorem Steps.life_of_not_born (lives : c.Lives) (h : Steps setup c moves c')
    (unborn : ∀ ref : QueryRef, ref.id = x → .born ref ∉ moves)
    (hp : c'.find? name x = some p) : ∃ q, c.find? name x = some q ∧ q.life = p.life := by
  induction h with
  | refl c => exact ⟨p, hp, rfl⟩
  | head hstep _ ih =>
    obtain ⟨q, hq, hlife⟩ := ih (lives.step hstep)
      (fun ref hid hmem => unborn ref hid (List.mem_cons_of_mem _ hmem)) hp
    obtain ⟨r, hr, hrlife⟩ := hstep.life_of_not_born lives
      (fun ref hid hmove => unborn ref hid (hmove ▸ List.mem_cons_self)) hq
    exact ⟨r, hr, hrlife.trans hlife⟩

theorem Step.living_of_begun {request : Request} (h : Step setup c (.begun request) c') :
    ∃ q, c'.query? request.query = some q ∧ q.epoch = request.epoch := by
  cases h with
  | @begun query home q hhome found =>
    refine ⟨q.begun, ?_, rfl⟩
    show (c.set home ((c.service home).fetching query)).query? query = _
    rw [query?_set, if_pos hhome, Service.alters_fetching, if_pos rfl, found]
    rfl

theorem Step.find?_of_vacuumed (lives : c.Lives) (h : Step setup c (.vacuumed x) c') :
    c'.find? name x = none := by
  cases h with
  | vacuumed hhome vacuum =>
    refine Option.eq_none_iff_forall_ne_some.mpr fun p hp => ?_
    exact ((find?_retire lives hhome vacuum).mp hp).1 rfl

theorem Lives.altered {home : String} {s : Service} {f : Query → Query} (h : c.Lives)
    (lives : c.home? query = some home) (alters : (c.service home).Alters query f s)
    (same : ∀ q, (f q).life = q.life) (hq : c.find? name x = some q) :
    ∃ p, (c.set home s).find? name x = some p ∧ p.life = q.life := by
  by_cases hx : x = query
  · subst hx
    obtain rfl := h.name_eq lives hq
    exact ⟨f q, (h.find?_alters lives alters).mpr (Or.inl ⟨rfl, rfl, q, hq, rfl⟩), same q⟩
  · exact ⟨q, (h.find?_alters lives alters).mpr (Or.inr ⟨hx, hq⟩), rfl⟩

theorem Step.life_of_not_vacuumed (lives : c.Lives) (h : Step setup c move c')
    (stays : move ≠ .vacuumed x) (hq : c.find? name x = some q) :
    ∃ p, c'.find? name x = some p ∧ p.life = q.life := by
  cases h with
  | @born ref new =>
    refine ⟨q, find?_adopt.mpr (Or.inr ⟨?_, hq⟩), rfl⟩
    rintro ⟨-, rfl⟩
    rw [lives.find?_eq_none new] at hq
    cases hq
  | begun hhome => exact lives.altered hhome Service.alters_fetching (fun _ => rfl) hq
  | deferred hhome => exact lives.altered hhome Service.alters_mark (fun _ => rfl) hq
  | landed _ _ current =>
    obtain ⟨p, hp, -⟩ := current
    exact lives.altered (lives.home hp) Service.alters_answered (fun _ => Query.life_answered) hq
  | dropped => exact ⟨q, hq, rfl⟩
  | @merged service changes =>
    rw [find?_set]
    split
    · next hname =>
      subst hname
      have hkeeps := Service.keeps_mergeAll setup.conventions (c.service name) changes x
      rw [show (c.service name).queries.get? x = some q from hq, Option.map_some] at hkeeps
      exact Option.map_eq_some_iff.mp hkeeps
    · exact ⟨q, hq, rfl⟩
  | vacuumed hhome vacuum =>
    have hx : x ≠ _ := fun e => stays (e ▸ rfl)
    exact ⟨q, (find?_retire lives hhome vacuum).mpr ⟨hx, hq⟩, rfl⟩

theorem Steps.life_of_not_vacuumed (lives : c.Lives) (h : Steps setup c moves c')
    (stays : .vacuumed x ∉ moves) (hq : c.find? name x = some q) :
    ∃ p, c'.find? name x = some p ∧ p.life = q.life := by
  induction h generalizing q with
  | refl c => exact ⟨q, hq, rfl⟩
  | head hstep _ ih =>
    obtain ⟨p, hp, hlife⟩ := hstep.life_of_not_vacuumed lives
      (fun e => stays (e ▸ List.mem_cons_self)) hq
    obtain ⟨r, hr, hrlife⟩ := ih (lives.step hstep) (fun hm => stays (List.mem_cons_of_mem _ hm)) hp
    exact ⟨r, hr, hrlife.trans hlife⟩

end Cache

end LiveQuery
