import LiveQuery.Proofs.Cache.Beginnings
import LiveQuery.Proofs.Store.Fetches

/-!
# Epochs tell lives apart

A query can be vacuumed and come to life again under the same id while fetches of its
earlier lives are still outstanding. Each life has an epoch of its own, later than all
before, and an answer counts exactly if its fetch has begun in the life that the query is
living; any other answer only ends its fetch (`Run.answers_count_for_their_life`).

The invariant is `Run.exists_birth`: a query that lives has come to life at some point of the
history, has lived on since, in the same epoch, and whatever fetch of that epoch is
outstanding has begun since.
-/

namespace LiveQuery

/-- Does a query come to life, and is it then as given? -/
def Happening.Births (h : Happening) (query : QueryId) (q : Query) : Prop :=
  h.before.store.query? query = none ∧ h.after.store.query? query = some q

/-- Has a fetch begun in the life that its query is living at the end of a history? -/
def BegunInLife (history : List Happening) (query : QueryId) (request : Request) : Prop :=
  request.query = query ∧ ∃ before birth since, history = before ++ birth :: since ∧
    (∃ q, birth.Births query q) ∧
    (∀ h ∈ since, ∃ q, h.after.store.query? query = some q) ∧
    ∃ h ∈ since, request ∈ h.begun

variable {setup : Setup} {history before since : List Happening} {w w' : World}
variable {birth h : Happening} {query x : QueryId} {epoch : Nat} {p q : Query}
variable {request : Request} {answer : Except Failure (QueryData × Fields)}
variable {signal : Option Signal}

/-! ## Births -/

theorem Happening.Births.lt_nextEpoch (births : h.Births query q) (occurs : h.Occurs setup) :
    q.epoch < h.after.store.nextEpoch := by
  have hlives := occurs.lives_after
  obtain ⟨name, hq⟩ := hlives.query?_eq_some.mp (World.query?_cache.trans births.2)
  exact hlives.epoch_lt hq

/-- Each life that begins has a later epoch than all that have begun before. -/
theorem Run.pairwise_births (run : Run setup history w) :
    (∀ h ∈ history, ∀ x q, h.Births x q → q.epoch < w.store.nextEpoch) ∧
      history.Pairwise fun h h' => ∀ x q x' q', h.Births x q → h'.Births x' q' →
        q.epoch < q'.epoch := by
  induction history using List.reverseRecOn generalizing w with
  | nil => exact ⟨List.forall_mem_nil _, List.Pairwise.nil⟩
  | append_singleton history last ih =>
    obtain ⟨hrun, hoccurs, rfl⟩ := run.concat
    obtain ⟨hlt, hpairwise⟩ := ih hrun
    refine ⟨?_, List.pairwise_append.mpr ⟨hpairwise, List.pairwise_singleton _ _, ?_⟩⟩
    · intro h hmem x q births
      rcases List.mem_append.mp hmem with hmem | hmem
      · exact Nat.lt_of_lt_of_le (hlt h hmem x q births) hoccurs.nextEpoch_le
      · obtain rfl := List.mem_singleton.mp hmem
        exact births.lt_nextEpoch hoccurs
    · intro h hmem h' hmem' x q x' q' births births'
      obtain rfl := List.mem_singleton.mp hmem'
      obtain ⟨ref, -, -, hle, -⟩ := hoccurs.of_born births'.1 births'.2
      exact Nat.lt_of_lt_of_le (hlt h hmem x q births) hle

/-! ## The life that a query is living -/

theorem Run.exists_birth (run : Run setup history w) (lives : w.store.query? query = some q) :
    ∃ before birth since, history = before ++ birth :: since ∧
      (∃ p, birth.Births query p) ∧
      (∀ h ∈ since, ∃ p, h.after.store.query? query = some p) ∧
      ∀ request ∈ w.outstanding, request.isFor query q.epoch = true →
        ∃ h ∈ since, request ∈ h.begun := by
  induction history using List.reverseRecOn generalizing w q with
  | nil =>
    obtain rfl := run_nil.mp run
    cases lives
  | append_singleton history last ih =>
    obtain ⟨hrun, hoccurs, rfl⟩ := run.concat
    cases hbefore : last.before.store.query? query with
    | none =>
      obtain ⟨ref, -, -, hlater, hnone⟩ := hoccurs.of_born hbefore lives
      refine ⟨history, last, [], rfl, ⟨q, hbefore, lives⟩, List.forall_mem_nil _, ?_⟩
      intro request hmem hfor
      rcases hoccurs.begun_or_outstanding hmem with hbegun | hasked
      · rw [hnone] at hbegun
        cases hbegun
      · have hlt : request.epoch < last.before.store.nextEpoch := hoccurs.lives.asked_lt hasked
        simp only [Request.isFor, Bool.and_eq_true, beq_iff_eq] at hfor
        rw [hfor.2] at hlt
        exact absurd hlater (Nat.not_le.mpr hlt)
    | some p =>
      have hepoch : q.epoch = p.epoch := congrArg Life.epoch (hoccurs.life_eq hbefore lives)
      obtain ⟨before, birth, since, rfl, hbirth, hgoesOn, hbegun⟩ := ih hrun hbefore
      refine ⟨before, birth, since ++ [last], by simp, hbirth, ?_, ?_⟩
      · intro h hmem
        rcases List.mem_append.mp hmem with hmem | hmem
        · exact hgoesOn h hmem
        · exact ⟨q, List.mem_singleton.mp hmem ▸ lives⟩
      · intro request hmem hfor
        rcases hoccurs.begun_or_outstanding hmem with hnow | hasked
        · exact ⟨last, List.mem_append_right _ (List.mem_singleton_self _), hnow⟩
        · obtain ⟨h, hh, hsince⟩ := hbegun request hasked (hepoch ▸ hfor)
          exact ⟨h, List.mem_append_left _ hh, hsince⟩

theorem Run.epoch_eq (run : Run setup (before ++ birth :: since) w)
    (goesOn : ∀ h ∈ since, ∃ q, h.after.store.query? query = some q) (mem : h ∈ since)
    (lives : h.after.store.query? query = some p) :
    ∃ q, w.store.query? query = some q ∧ q.epoch = p.epoch := by
  induction since using List.reverseRecOn generalizing w with
  | nil => cases mem
  | append_singleton since last ih =>
    rw [← List.cons_append, ← List.append_assoc] at run
    have hmem : last ∈ since ++ [last] := List.mem_append_right _ (List.mem_singleton_self _)
    obtain ⟨hrun, hoccurs, rfl⟩ := run.concat
    obtain ⟨q, hq⟩ := goesOn last hmem
    rcases List.mem_append.mp mem with hearlier | hlast
    · obtain ⟨r, hr, hepoch⟩ := ih hrun (fun h hh => goesOn h (List.mem_append_left _ hh)) hearlier
      have hlife := hoccurs.life_eq hr hq
      exact ⟨q, hq, (congrArg Life.epoch hlife).trans hepoch⟩
    · obtain rfl := List.mem_singleton.mp hlast
      exact ⟨p, lives, rfl⟩

/-- An outstanding fetch is for the life that goes on exactly if it has begun in it. -/
theorem Run.isCurrent_iff_begunInLife (run : Run setup history w)
    (asked : request ∈ w.outstanding) :
    w.store.isCurrent request = true ↔ BegunInLife history request.query request := by
  have hlives := run.lives
  rw [@Store.isCurrent_iff _ w.outstanding _]
  constructor
  · rintro ⟨q, hq, hepoch⟩
    have hfound := hlives.query?_eq_some.mpr ⟨_, hq⟩
    obtain ⟨before, birth, since, hsplit, hbirth, hgoesOn, hbegun⟩ :=
      run.exists_birth (World.query?_cache.symm.trans hfound)
    refine ⟨rfl, before, birth, since, hsplit, hbirth, hgoesOn, hbegun request asked ?_⟩
    simp [Request.isFor, hepoch]
  · rintro ⟨-, before, birth, since, rfl, -, hgoesOn, h, hmem, hbegun⟩
    have hoccurs := run.occurs h (List.mem_append_right _ (List.mem_cons_of_mem _ hmem))
    obtain ⟨p, hp, hepoch⟩ := hoccurs.living_of_begun hbegun
    obtain ⟨q, hq, hsame⟩ := run.epoch_eq hgoesOn hmem hp
    obtain ⟨name, hfind⟩ := hlives.query?_eq_some.mp (World.query?_cache.trans hq)
    exact hlives.isCurrent asked hfind (hsame.trans hepoch)

/-! ## Answers -/

theorem World.answered_eq (h : w.act? setup (.answered query epoch answer) = some (w', signal)) :
    ∃ request ∈ w.requests, request.isFor query epoch = true ∧
      w' = { w with requests := w.requests.eraseP (·.isFor query epoch) }.proceed
        (w.store.complete setup request answer) ∧ signal = none := by
  simp only [act?] at h
  split at h
  · next request hfind =>
    obtain ⟨-, h⟩ := Option.ite_none_right_eq_some.mp h
    cases h
    have hfor := List.find?_some hfind
    exact ⟨request, List.mem_of_find?_eq_some hfind, hfor, rfl, rfl⟩
  · cases h

/-- Lives never share an epoch, and an answer counts for the query it is for if and only if
its fetch has begun in the life that the query is living. Any other answer only ends its
fetch. -/
theorem Run.answers_count_for_their_life (run : Run setup history w) :
    (∀ h ∈ history, ∀ x q, h.Births x q → ∃ ref, h.act = .materialize ref ∧ ref.id = x) ∧
      (history.Pairwise fun h h' => ∀ x q x' q', h.Births x q → h'.Births x' q' →
        q.epoch < q'.epoch) ∧
      ∀ query epoch answer w' signal,
        w.act? setup (.answered query epoch answer) = some (w', signal) →
        ∃ request ∈ w.requests, request.isFor query epoch = true ∧
          (∀ x, w'.store.query? x ≠ w.store.query? x → BegunInLife history x request) ∧
          (BegunInLife history query request → ∃ q, w.store.query? query = some q ∧
            w'.store.query? query =
              some (q.settled answer (q.dirty && w.store.hasListener query))) ∧
          (¬BegunInLife history query request → signal = none ∧
            w' = { w with requests := w.requests.eraseP (·.isFor query epoch) }) := by
  refine ⟨?_, run.pairwise_births.2, ?_⟩
  · intro h hmem x q births
    obtain ⟨ref, hact, hid, -⟩ := (run.occurs h hmem).of_born births.1 births.2
    exact ⟨ref, hact, hid⟩
  intro query epoch answer w' signal hact
  obtain ⟨request, hmem, hfor, rfl, rfl⟩ := World.answered_eq hact
  have hasked : request ∈ w.outstanding := List.mem_append_right _ hmem
  obtain ⟨rfl, rfl⟩ : request.query = query ∧ request.epoch = epoch := by
    simpa [Request.isFor] using hfor
  refine ⟨request, hmem, hfor, ?_⟩
  rw [← run.isCurrent_iff_begunInLife hasked]
  show (∀ x, (w.store.complete setup request answer).1.query? x ≠ _ → _) ∧
    (_ → ∃ q, _ ∧ (w.store.complete setup request answer).1.query? _ = _) ∧ _
  by_cases hcurrent : w.store.isCurrent request = true
  · obtain ⟨q, hq, -⟩ := (@Store.isCurrent_iff _ w.outstanding _).mp hcurrent
    have hhome : w.store.homes.get? request.query = some request.service := run.lives.home hq
    have hfound : w.store.query? request.query = some q :=
      World.query?_cache.symm.trans (run.lives.query?_eq_some.mpr ⟨_, hq⟩)
    have hafter (x : QueryId) := @Store.query?_complete setup w.store x q request answer hcurrent
      hhome hfound
    refine ⟨fun x hchanged => ?_, fun _ => ⟨q, hfound, by rw [hafter, if_pos rfl]⟩,
      fun hnot => absurd hcurrent hnot⟩
    rw [hafter] at hchanged
    by_cases hx : x = request.query
    · exact hx ▸ (run.isCurrent_iff_begunInLife hasked).mp hcurrent
    · exact absurd (if_neg hx) hchanged
  · have hdropped : w.store.complete setup request answer = (w.store, []) := by
      unfold Store.complete
      rw [if_neg hcurrent]
    rw [hdropped]
    exact ⟨fun x hchanged => absurd rfl hchanged, fun hnow => absurd hnow hcurrent,
      fun _ => ⟨rfl, rfl⟩⟩

namespace Notes

def returning : List Act :=
  [.unsubscribe ideas.id ⟨1⟩ (some true), .materialize ideas, .goOn, .subscribe ideas.id, .goOn,
    .giveBack, .goOn]

def returned : World := handed.play {} returning

theorem run_returned : ∃ history, Run {} history returned := by
  obtain ⟨history, hrun⟩ := run_handed
  exact ⟨_, hrun.play returning⟩

def secondAnswer : Act :=
  .answered ideas.id 2 (.ok (.list [note 1 100 "idea"], [("total", .int 1)]))

/-- While both fetches are outstanding, the answer to the first only ends it, and the second
is the one that counts. -/
theorem first_fetch_orphaned :
    ∃ history, Run {} history returned ∧
      (∃ request ∈ returned.requests, request.isFor ideas.id 1 = true ∧
        ¬BegunInLife history ideas.id request ∧
        returned.play {} [firstAnswer] =
          { returned with requests := returned.requests.eraseP (·.isFor ideas.id 1) }) ∧
      ∃ request ∈ returned.requests, request.isFor ideas.id 2 = true ∧
        BegunInLife history ideas.id request := by
  obtain ⟨history, hreturned⟩ := run_returned
  have hempty : (returned.store.query? ideas.id).all (·.state.data.isNone) = true := by
    decide +kernel
  obtain ⟨_, hfirst⟩ := World.act?_eq_some_play
    (show (returned.act? {} firstAnswer).isSome = true by decide +kernel)
  obtain ⟨_, hsecond⟩ := World.act?_eq_some_play
    (show (returned.act? {} secondAnswer).isSome = true by decide +kernel)
  obtain ⟨-, -, hanswers⟩ := Run.answers_count_for_their_life hreturned
  refine ⟨history, hreturned, ?_, ?_⟩
  · obtain ⟨request, hmem, hfor, -, hcounts, hdropped⟩ := hanswers _ _ _ _ _ hfirst
    have hnot : ¬BegunInLife history ideas.id request := by
      intro hbegun
      obtain ⟨q, -, hq⟩ := hcounts hbegun
      have hstill : ((returned.play {} [firstAnswer]).store.query? ideas.id).all
          (·.state.data.isNone) = true := by decide +kernel
      rw [hq, Query.settled] at hstill
      split at hstill
      · cases hstill
      · cases hstill
    exact ⟨request, hmem, hfor, hnot, (hdropped hnot).2⟩
  · obtain ⟨request, hmem, hfor, hchanged, -⟩ := hanswers _ _ _ _ _ hsecond
    refine ⟨request, hmem, hfor, hchanged ideas.id fun hsame => ?_⟩
    have hlanded : ((returned.play {} [secondAnswer]).store.query? ideas.id).all
        (·.state.data.isNone) = false := by decide +kernel
    rw [hsame, hempty] at hlanded
    cases hlanded

end Notes

end LiveQuery
