import LiveQuery.Proofs.Threads.Calls

/-!
# No notice is lost

Notices of earlier transitions may be passed over, but not the latest one of a listener: it waits
for its turn, and its listener has seen nothing as late, or it is the last that has been agreed to
(`Threads.IsLatest`). As long as no notice is planned for the listener the state of its query does
not change, so what the latest one shows is how the query stands. Hence, once no call of the
listener is to be made, it has been handed the present state, if that has changed since it came;
and that is what it has been handed last, if no call has overtaken one that another thread had
agreed to (`Threads.Run.no_notice_lost`).
-/

namespace LiveQuery.Threads

/-- Does the state of a query change in a step? -/
def Step.Alters (h : Step) (query : QueryId) : Prop :=
  ∃ p q, h.before.store.state? query = some p ∧ h.after.store.state? query = some q ∧ p ≠ q

theorem exists_alters {steps : List Step} {query : QueryId}
    (changes : steps.any (fun h => (h.before.store.state? query).any fun p =>
      (h.after.store.state? query).any fun q => p.status ≠ q.status) = true) :
    ∃ h ∈ steps, h.Alters query := by
  obtain ⟨h, hmem, hstates⟩ := List.any_eq_true.mp changes
  obtain ⟨p, hp, hstates⟩ := (Option.any_eq_true _ _).mp hstates
  obtain ⟨q, hq, hne⟩ := (Option.any_eq_true _ _).mp hstates
  exact ⟨h, hmem, p, q, hp, hq, fun heq => by simp [heq] at hne⟩

/-- Is a notice the latest one for a listener, and has it been agreed to or will it be? -/
structure IsLatest (history : List Step) (w : Threads) (l : ListenerId) (n : Notice) : Prop where
  listener : n.listener = l
  latest : ∀ m ∈ w.due, m.listener = l → m.transition < n.transition ∨ m = n
  stands : (n ∈ w.due ∧ w.store.seenBy l < n.transition) ∨
    (agreedTo history l).getLast? = some n ∧ n.transition ≤ w.store.seenBy l

variable {setup : Setup} {threads : Nat} {history before since : List Step} {w : Threads}
variable {h reg last : Step} {query : QueryId} {l : ListenerId} {m n : Notice}

theorem Step.Occurs.exists_notice_of_alters (occurs : h.Occurs setup)
    (listens : (query, l) ∈ h.after.store.listeners) (alters : h.Alters query) :
    ∃ n ∈ h.notices, n.listener = l := by
  obtain ⟨work, htells, hwork⟩ := occurs.tells
  obtain ⟨p, q, hp, hq, hne⟩ := alters
  exact ⟨_, hwork ▸ htells.complete query l p q hp hq hne listens, rfl⟩

theorem Run.due_le (run : Run setup threads history w) :
    (∀ n ∈ w.due, n.transition ≤ w.store.transitions) ∧
      ∀ l, w.store.seenBy l ≤ w.store.transitions := by
  induction history using List.reverseRecOn generalizing w with
  | nil =>
    obtain rfl := run_nil.mp run
    refine ⟨fun n hn => ?_, fun l => Nat.le_refl 0⟩
    rw [due, pieces_replicate] at hn
    cases hn
  | append_singleton history last ih =>
    obtain ⟨hrun, hoccurs, rfl⟩ := run.concat
    obtain ⟨hdue, hseen⟩ := ih hrun
    have hle := hoccurs.transitions_le
    refine ⟨fun n hn => ?_, fun l => ?_⟩
    · rcases hoccurs.notice_or_due hn with hnow | hbefore
      · obtain ⟨htransition, hnumber, -⟩ := hoccurs.transition_of_notice hnow
        omega
      · exact (hdue n hbefore).trans hle
    · rcases hoccurs.agreed_cases l with ⟨-, hstill⟩ | ⟨n, hn, -, -, -, hnow⟩
      · exact hstill.le.trans ((hseen l).trans hle)
      · exact hnow.le.trans ((hdue n hn).trans hle)

theorem Run.isLatest_of_notice (run : Run setup threads (history ++ [last]) w)
    (mem : reg ∈ history ++ [last]) (registers : reg.Subscribes query l)
    (planned : n ∈ last.notices) (listener : n.listener = l) :
    ∃ s, IsLatest (history ++ [last]) w l n ∧ n.payload = .state s ∧
      w.store.state? query = some s := by
  have hall := run
  obtain ⟨hrun, hoccurs, rfl⟩ := run.concat
  obtain ⟨hdue, hseen⟩ := hrun.due_le
  have hshown : ∀ m ∈ last.notices, m.listener = l → ∃ s,
      last.after.store.state? query = some s ∧ m.payload = .state s := by
    rintro m hm rfl
    exact hall.eq_state_of_presents mem registers List.mem_concat_self
      (hoccurs.transition_of_notice hm).2.2
  obtain ⟨s, hs, hpayload⟩ := hshown n planned listener
  obtain ⟨htransition, -, -⟩ := hoccurs.transition_of_notice planned
  refine ⟨s, ⟨listener, fun m hm hl => ?_, Or.inl ⟨hoccurs.due_of_notice planned, ?_⟩⟩,
    hpayload, hs⟩
  · rcases hoccurs.notice_or_due hm with hnow | hbefore
    · obtain ⟨s', hs', hpayload'⟩ := hshown m hnow hl
      obtain rfl := Option.some.inj (hs'.symm.trans hs)
      obtain ⟨hsame, -, -⟩ := hoccurs.transition_of_notice hnow
      exact Or.inr (Notice.ext (hsame.trans htransition.symm) (hl.trans listener.symm)
        (hpayload'.trans hpayload.symm))
    · have hle := hdue m hbefore
      exact Or.inl (by omega)
  · rcases hoccurs.agreed_cases l with ⟨-, hstill⟩ | ⟨m, hm, -, -, -, hnow⟩
    · have hle := hseen l
      omega
    · have hle := hdue m hm
      omega

/-- The latest notice stays so while no other is planned for its listener. -/
theorem IsLatest.step (occurs : last.Occurs setup) (h : IsLatest history last.before l n)
    (none : ∀ m ∈ last.notices, m.listener ≠ l) :
    IsLatest (history ++ [last]) last.after l n := by
  refine ⟨h.listener, fun m hm hl => ?_, ?_⟩
  · rcases occurs.notice_or_due hm with hnow | hbefore
    · exact absurd hl (none m hnow)
    · exact h.latest m hbefore hl
  have hown : last.agreed = [n] → n ∈ last.agreed.filter (·.listener = l) := fun hagreed => by
    simp [hagreed, h.listener]
  rw [agreedTo_concat]
  rcases occurs.agreed_cases l with ⟨hsilent, hseen⟩ | ⟨m, hm, hone, hl, hnew, hseen⟩
  · rw [hsilent, hseen, List.append_nil]
    refine h.stands.imp_left fun ⟨hdue, hnew⟩ => ⟨?_, hnew⟩
    rcases occurs.of_due hdue with hafter | hagreed | hpassed
    · exact hafter
    · rw [hsilent] at hown
      cases hown hagreed
    · rw [h.listener] at hpassed
      exact absurd hnew (Nat.not_lt.mpr hpassed)
  · rw [hone, hseen, List.getLast?_concat]
    rcases h.latest m hm hl with hearlier | rfl
    · rcases h.stands with ⟨hdue, hlate⟩ | ⟨-, hle⟩
      · refine Or.inl ⟨?_, hearlier⟩
        rcases occurs.of_due hdue with hafter | hagreed | hpassed
        · exact hafter
        · rw [hone] at hown
          rw [List.mem_singleton.mp (hown hagreed)] at hearlier
          exact absurd hearlier (Nat.lt_irrefl _)
        · rw [h.listener] at hpassed
          omega
      · omega
    · exact Or.inr ⟨rfl, Nat.le_refl _⟩

/-- Once the state of a query has changed since a listener came, the latest notice for the listener
shows how the query stands. -/
theorem Run.exists_latest (run : Run setup threads (before ++ reg :: since) w)
    (registers : reg.Subscribes query l) (listens : (query, l) ∈ w.store.listeners)
    (altered : ∃ h ∈ reg :: since, h.Alters query) :
    ∃ n s, IsLatest (before ++ reg :: since) w l n ∧ n.payload = .state s ∧
      w.store.state? query = some s := by
  induction since using List.reverseRecOn generalizing w with
  | nil =>
    obtain ⟨h, hmem, halters⟩ := altered
    obtain rfl := List.mem_singleton.mp hmem
    have hall := run
    obtain ⟨-, hoccurs, rfl⟩ := run.concat
    obtain ⟨n, hn, hl⟩ := hoccurs.exists_notice_of_alters listens halters
    exact ⟨n, hall.isLatest_of_notice List.mem_concat_self registers hn hl⟩
  | append_singleton since last ih =>
    rw [← List.cons_append, ← List.append_assoc] at run ⊢
    have hreg : reg ∈ before ++ reg :: since := List.mem_append_right _ List.mem_cons_self
    have hall := run
    obtain ⟨hrun, hoccurs, rfl⟩ := run.concat
    by_cases htold : ∃ n ∈ last.notices, n.listener = l
    · obtain ⟨n, hn, hl⟩ := htold
      exact ⟨n, hall.isLatest_of_notice (List.mem_append_left _ hreg) registers hn hl⟩
    have hstill : ¬last.Alters query := fun halters =>
      htold (hoccurs.exists_notice_of_alters listens halters)
    have hearlier : ∃ h ∈ reg :: since, h.Alters query := by
      obtain ⟨h, hmem, halters⟩ := altered
      rw [← List.cons_append] at hmem
      rcases List.mem_append.mp hmem with hmem | hmem
      · exact ⟨h, hmem, halters⟩
      · exact absurd (List.mem_singleton.mp hmem ▸ halters) hstill
    have hlistened : (query, l) ∈ last.before.store.listeners := by
      refine (hoccurs.listens_or_subscribes listens).resolve_right fun hnow => ?_
      have hle := hrun.number_le hreg (Or.inl ⟨query, registers⟩)
      have hnext := (hoccurs.number_of_registers (Or.inl ⟨query, hnow⟩)).1
      omega
    obtain ⟨n, s, hlatest, hpayload, hs⟩ := ih hrun hlistened hearlier
    refine ⟨n, s, hlatest.step hoccurs fun m hm hl => htold ⟨m, hm, hl⟩, hpayload, ?_⟩
    obtain ⟨p, hp, rfl⟩ := Option.map_eq_some_iff.mp hs
    obtain ⟨q, hq, -⟩ := hoccurs.lives_on hp (Store.hasListener_iff.mpr ⟨l, listens⟩)
    have hafter : last.after.store.state? query = some q.state := congrArg (·.map Query.state) hq
    by_cases hsame : p.state = q.state
    · rw [hsame]
      exact hafter
    · exact absurd ⟨p.state, q.state, hs, hafter, hsame⟩ hstill

/-- While no call of it is due or agreed to, a listener that is still registered has been handed the
present state of its query, if that state has changed since the listener came: it is the last that
has been agreed to. If no call of the listener overtakes one that another thread has agreed to, it
is also the last that the listener has been handed. -/
theorem Run.no_notice_lost (run : Run setup threads (before ++ reg :: since) w)
    (registers : reg.Subscribes query l) (listens : (query, l) ∈ w.store.listeners)
    (settled : ∀ n ∈ w.due ++ w.agreed, n.listener ≠ l)
    (altered : ∃ h ∈ reg :: since, h.Alters query) :
    ∃ n s, w.store.state? query = some s ∧ n.payload = .state s ∧
      n ∈ received (before ++ reg :: since) l ∧
      (agreedTo (before ++ reg :: since) l).getLast? = some n ∧
      ((∀ h ∈ before ++ reg :: since, ¬h.Overtakes l) →
        (received (before ++ reg :: since) l).getLast? = some n) := by
  obtain ⟨hdue, hagreed⟩ := List.forall_mem_append.mp settled
  have hnone : w.agreed.filter (·.listener = l) = [] :=
    List.filter_eq_nil_iff.mpr fun n hn hl => hagreed n hn (of_decide_eq_true hl)
  have hperm := run.received_perm l
  rw [hnone, List.append_nil] at hperm
  obtain ⟨n, s, hlatest, hpayload, hs⟩ := run.exists_latest registers listens altered
  rcases hlatest.stands with ⟨hwaits, -⟩ | ⟨hlast, -⟩
  · exact absurd hlatest.listener (hdue n hwaits)
  refine ⟨n, s, hs, hpayload, hperm.mem_iff.mpr (List.mem_of_getLast? hlast), hlast, ?_⟩
  intro horderly
  rw [(run.received_prefix horderly).eq_of_length hperm.length_eq]
  exact hlast

end LiveQuery.Threads

namespace LiveQuery.Notes

/-- The listener has been handed both ideas, and nothing after them. -/
theorem two_ideas_last :
    Threads.Run {} 2 (two.played {} (heard inTurn)) (two.play {} (heard inTurn)) ∧
      ∃ n s, (Threads.received (two.played {} (heard inTurn)) ⟨1⟩).getLast? = some n ∧
        n.payload = .state s ∧ (two.play {} (heard inTurn)).store.state? ideas.id = some s ∧
        s.items.length = 2 := by
  have hrun : Threads.Run {} 2 (two.played {} (heard inTurn)) (two.play {} (heard inTurn)) :=
    Threads.Run.start.play (heard inTurn)
  have horderly : ∀ h ∈ two.played {} (heard inTurn), ¬h.Overtakes ⟨1⟩ := by decide +kernel
  obtain ⟨reg, hplayed, hbefore, -, hact, hafter⟩ : ∃ reg : Threads.Step,
      two.played {} (heard inTurn) =
        two.played {} mounting ++ reg :: reg.after.played {} inTurn ∧ _ :=
    Threads.exists_played (by decide +kernel)
  have hregisters : reg.Subscribes ideas.id ⟨1⟩ := ⟨hact, by rw [hbefore]; decide +kernel⟩
  have hsettled : (two.play {} (heard inTurn)).due ++ (two.play {} (heard inTurn)).agreed = [] :=
    List.eq_nil_of_length_eq_zero (by decide +kernel)
  have haltered : ∃ h ∈ reg :: reg.after.played {} inTurn, h.Alters ideas.id := by
    obtain ⟨h, hmem, halters⟩ : ∃ h ∈ reg.after.played {} inTurn, h.Alters ideas.id := by
      rw [hafter]
      exact Threads.exists_alters (by decide +kernel)
    exact ⟨h, List.mem_cons_of_mem _ hmem, halters⟩
  have hitems : ((two.play {} (heard inTurn)).store.state? ideas.id).map (·.items.length) =
      some 2 := by
    decide +kernel
  have hsplit := hrun
  rw [hplayed] at hsplit horderly ⊢
  obtain ⟨n, s, hs, hpayload, -, -, hlast⟩ := Threads.Run.no_notice_lost hsplit hregisters
    (by decide +kernel) (by rw [hsettled]; exact List.forall_mem_nil _) haltered
  rw [hs] at hitems
  exact ⟨hsplit, n, s, hlast horderly, hpayload, hs, Option.some.inj hitems⟩

/-- All has been done, and what the listener has been handed last is not what there is. -/
theorem one_idea_last :
    Threads.Run {} 2 (two.played {} (heard outOfTurn)) (two.play {} (heard outOfTurn)) ∧
      (two.play {} (heard outOfTurn)).pieces = [] ∧
      (ideas.id, ⟨1⟩) ∈ (two.play {} (heard outOfTurn)).store.listeners ∧
      (∃ h ∈ (two.play {} (mounting ++ [(0, .subscribe ideas.id)])).played {} outOfTurn,
        h.Alters ideas.id) ∧
      ∃ n s present, (Threads.received (two.played {} (heard outOfTurn)) ⟨1⟩).getLast? = some n ∧
        n.payload = .state s ∧
        (two.play {} (heard outOfTurn)).store.state? ideas.id = some present ∧ s ≠ present := by
  have hlast : (Threads.received (two.played {} (heard outOfTurn)) ⟨1⟩).getLast?.map
      (fun n => n.payload.casesOn (motive := fun _ => Option Nat) (fun s => some s.items.length)
        fun _ => none) = some (some 1) := by
    decide +kernel
  have hpresent : ((two.play {} (heard outOfTurn)).store.state? ideas.id).map (·.items.length) =
      some 2 := by
    decide +kernel
  obtain ⟨n, hn, hshown⟩ := Option.map_eq_some_iff.mp hlast
  obtain ⟨present, hp, htwo⟩ := Option.map_eq_some_iff.mp hpresent
  refine ⟨Threads.Run.start.play (heard outOfTurn),
    List.eq_nil_of_length_eq_zero (by decide +kernel), by decide +kernel,
    Threads.exists_alters (by decide +kernel), ?_⟩
  cases hpayload : n.payload with
  | snapshot => simp [hpayload] at hshown
  | state s =>
    refine ⟨n, s, present, hn, hpayload, hp, ?_⟩
    rintro rfl
    simp [hpayload, htwo] at hshown

end LiveQuery.Notes
