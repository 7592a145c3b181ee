import LiveQuery.Proofs.Cache.Acts
import LiveQuery.Proofs.Store.Histories

/-!
# Index and results mirror each other

In every service, whatever has happened, the membership index says exactly which merging
queries show which ids (`Run.holders_mirror_results`). Each move changes one service by
operations that keep `Service.Mirror`, and an answer that lands is of the kind that its
query asked for, because it answers a request of the query's present life.
-/

namespace LiveQuery

namespace Cache

variable {setup : Setup} {conv : Conventions} {c c' : Cache} {name : String}

/-- Index, entities and results agree in every service. -/
def Mirror (conv : Conventions) (c : Cache) : Prop :=
  ∀ name, (c.service name).Mirror conv

theorem Mirror.set (h : c.Mirror conv) {s : Service} (hs : s.Mirror conv) :
    (c.set name s).Mirror conv := by
  intro n
  show (Function.update c.service name s n).Mirror conv
  by_cases hn : n = name
  · subst hn
    rwa [Function.update_self]
  · rw [Function.update_of_ne hn]
    exact h n

theorem suits_of_fits {request : Request} {data : QueryData} {metadata : Fields}
    (fits : request.fits (.ok (data, metadata)) = true) : data.suits request.method := by
  cases data with
  | item item => exact beq_iff_eq.mp fits
  | list items => exact beq_iff_eq.mp fits

theorem Mirror.step {move : Move} (lives : c.Lives) (h : c.Mirror setup.conventions)
    (hstep : Step setup c move c') : c'.Mirror setup.conventions := by
  cases hstep with
  | born new => exact h.set ((h _).adopt (lives.find?_eq_none new) rfl)
  | begun => exact h.set ((h _).fetching _)
  | deferred => exact h.set ((h _).modify (fun _ => rfl) (fun _ => rfl) fun _ => rfl)
  | @landed request rest answer asked fits current =>
    obtain ⟨q, hq, hepoch⟩ := current
    have hasked : request = q.request request.query request.service :=
      lives.asked (asked ▸ Multiset.mem_cons_self request rest) hq hepoch
    refine h.set (((h _).land ?_).modify (fun _ => rfl) (fun _ => rfl) fun _ => rfl)
    rintro p data metadata hp rfl
    obtain rfl := Option.some.inj (hq.symm.trans hp)
    have hsuits := suits_of_fits fits
    rwa [hasked] at hsuits
  | dropped => exact h
  | merged => exact h.set ((h _).mergeAll _)
  | vacuumed _ vacuum => exact h.set ((h _).vacuum vacuum)

end Cache

variable {setup : Setup} {history : List Happening} {w : World}

theorem Run.mirror (h : Run setup history w) : w.cache.Mirror setup.conventions :=
  h.cache_induction (P := Cache.Mirror setup.conventions) (fun _ => Service.Mirror.empty)
    fun lives hm hstep => hm.step lives hstep

theorem Query.merges_iff {q : Query} :
    q.merges = true ↔ q.config.realtime = .merge ∧
      ¬(q.config.fetchPolicy = .networkOnly ∧ q.descriptor.method = .find) := by
  simp only [Query.merges, Bool.and_eq_true, Bool.not_eq_true', beq_iff_eq, ← Bool.not_eq_true]

theorem Query.shows_iff_data {conv : Conventions} {q : Query} {id : ItemId} :
    q.Shows conv id ↔
      ∃ data, q.state.data = some data ∧ ∃ item ∈ data.all, conv.idOf item = some id := by
  rw [Query.shows_iff]
  cases hd : q.state.data with
  | none => simp [Query.shown_of_none hd]
  | some data => simp [Query.shown_of_data data hd]

/-- Under an id the index holds the merging queries that show the id and no others, it
holds no empty set and no id without an entity, and a query for one item shows an item
while a query for many shows a list. -/
theorem Run.holders_mirror_results (h : Run setup history w) (name : String) :
    (∀ id query, query ∈ (w.store.service name).index.holders id ↔
      ∃ q, (w.store.service name).queries.get? query = some q ∧
        q.config.realtime = .merge ∧
        ¬(q.config.fetchPolicy = .networkOnly ∧ q.descriptor.method = .find) ∧
        ∃ data, q.state.data = some data ∧
          ∃ item ∈ data.all, setup.conventions.idOf item = some id) ∧
    (∀ id queries, (w.store.service name).index.get? id = some queries → queries ≠ []) ∧
    (∀ id, (w.store.service name).index.contains id = true →
      ∃ item, (w.store.service name).entities.get? id = some item) ∧
    ∀ query q, (w.store.service name).queries.get? query = some q →
      (∀ item, q.state.data = some (.item item) → q.descriptor.method = .get) ∧
      ∀ items, q.state.data = some (.list items) → q.descriptor.method = .find := by
  have hm : (w.store.service name).Mirror setup.conventions := h.mirror name
  refine ⟨?_, ?_, ?_, ?_⟩
  · intro id query
    rw [hm.mem_holders]
    refine exists_congr fun q => and_congr_right fun _ => ?_
    rw [Query.merges_iff, and_assoc, Query.shows_iff_data]
  · intro id queries hid
    exact (hm.tidy id queries hid).1
  · intro id hid
    obtain ⟨queries, hqueries⟩ := Table.contains_eq_true.mp hid
    refine hm.cached fun hnil => (hm.tidy id queries hqueries).1 ?_
    rwa [Index.holders, hqueries] at hnil
  · intro query q hq
    exact ⟨fun item hd => hm.fits hq _ hd, fun items hd => hm.fits hq _ hd⟩

/-- Once the ideas have been fetched, the index knows that they show the first note. -/
theorem Notes.ideas_mirrored :
    ideas.id ∈ ((opened.store.service "notes").index.holders (.int 1)) ∧
      ∃ q, (opened.store.service "notes").queries.get? ideas.id = some q ∧
        q.config.realtime = .merge ∧
        ¬(q.config.fetchPolicy = .networkOnly ∧ q.descriptor.method = .find) ∧
        ∃ data, q.state.data = some data ∧
          ∃ item ∈ data.all, Conventions.standard.idOf item = some (.int 1) := by
  have hheld : ideas.id ∈ ((opened.store.service "notes").index.holders (.int 1)) := by
    decide +kernel
  obtain ⟨history, hrun⟩ := run_opened
  exact ⟨hheld, ((Run.holders_mirror_results hrun "notes").1 _ _).mp hheld⟩

end LiveQuery
