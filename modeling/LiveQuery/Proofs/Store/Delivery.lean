import LiveQuery.Proofs.Cache.View
import LiveQuery.Proofs.Service.Recency

/-!
# Deliveries out of order

Updates of one item are delivered to a store in batches and in any order. What a list
shows afterwards is what the newest update since the last eviction of the item says
(`Run.newest_since_eviction`); if no delivery but the last evicts the item, that is the
newest of all, and the order does not matter. It does matter otherwise: an eviction
forgets how old the item was, and a late update that comes after it is taken for new
(`Notes.order_matters`).
-/

namespace LiveQuery

namespace Store

variable {setup : Setup} {s : Store} {name : String}

/-- Deliver changes of a service in batches, one after the other. -/
def deliver (setup : Setup) (s : Store) (name : String) (batches : List (List Change)) : Store :=
  batches.foldl (fun s batch => (s.apply setup name batch).1) s

theorem service_apply (changes : List Change) :
    (s.apply setup name changes).1.service = Function.update s.service name
      ((s.service name).mergeAll setup.conventions changes).service := by
  rw [← service_setService]
  unfold apply
  dsimp only
  split <;> rfl

theorem homes_apply (changes : List Change) :
    (s.apply setup name changes).1.homes = s.homes := by
  unfold apply
  dsimp only
  split <;> rfl

/-- How changes are split into batches does not matter to their service. -/
theorem service_deliver (batches : List (List Change)) :
    (s.deliver setup name batches).service name =
      ((s.service name).mergeAll setup.conventions batches.flatten).service := by
  induction batches generalizing s with
  | nil => rfl
  | cons batch batches ih =>
    have hnext : (s.deliver setup name (batch :: batches)).service name = _ :=
      ih (s := (s.apply setup name batch).1)
    rw [hnext, service_apply, Function.update_self, List.flatten_cons,
      Service.mergeAll_append]

theorem homes_deliver (batches : List (List Change)) :
    (s.deliver setup name batches).homes = s.homes := by
  induction batches generalizing s with
  | nil => rfl
  | cons batch batches ih => exact (ih (s := (s.apply setup name batch).1)).trans (homes_apply _)

end Store

variable {setup : Setup} {history : List Happening} {w : World}
variable {query : QueryId} {q : Query} {id : ItemId}

/-- After timed updates of one item in any order and any batches, a list that follows
events shows the item exactly if it accepts the newest of the updates since the last
eviction of the item, and then it shows that one. If no delivery but the last evicts the
item, it is the newest of all. -/
theorem Run.newest_since_eviction {batches : List (List Change)} (run : Run setup history w)
    (stale : setup.conventions.isStale = Item.isStale)
    (lives : w.store.query? query = some q) (merge : q.config.realtime = .merge)
    (find : q.descriptor.method = .find) (policy : q.config.fetchPolicy ≠ .networkOnly)
    (fetched : q.state.data.isSome = true) (nonempty : batches.flatten ≠ [])
    (timed : ∀ change ∈ batches.flatten, change.IsTimed setup.conventions id)
    (distinct : (batches.flatten.map Change.time).Nodup)
    (fresh : ∀ cached, (w.store.service q.descriptor.service).entities.get? id = some cached →
      ∀ change ∈ batches.flatten, Item.isStale cached change.item = false) :
    ∃ (early late : List Change) (newest : Change), batches.flatten = early ++ late ∧
      (w.store.service q.descriptor.service).SplitsAtEviction setup.conventions id early late ∧
      newest.IsNewest late ∧
      ((∀ seen, seen <+: batches.flatten → seen ≠ [] → seen ≠ batches.flatten →
        ((w.store.service q.descriptor.service).mergeAll setup.conventions
          seen).service.entities.get? id ≠ none) → newest.IsNewest batches.flatten) ∧
      ∃ q', (w.store.deliver setup q.descriptor.service batches).query? query = some q' ∧
        ((∃ item ∈ q'.state.shown, setup.conventions.idOf item = some id) ↔
          Store.filterOf setup q.descriptor q.config newest.item = true) ∧
        ∀ item ∈ q'.state.shown, setup.conventions.idOf item = some id →
          item = newest.item := by
  obtain ⟨name, hfind⟩ := run.lives.query?_eq_some.mp (Store.query?_cache.trans lives)
  obtain rfl := run.lives.named hfind
  have hmerges : q.merges = true := Query.merges_iff.mpr ⟨merge, fun h => policy h.1⟩
  obtain ⟨early, late, newest, hsplit, hsplits, hnewest, hshows⟩ :=
    Service.exists_newest (run.mirror q.descriptor.service) stale hfind ⟨hmerges, find, fetched⟩
      nonempty timed distinct fresh
  refine ⟨early, late, newest, hsplit, hsplits, hnewest, ?_, ?_⟩
  · intro hkept
    have hearly : early = [] := by
      by_contra hsome
      refine hkept early ⟨late, hsplit.symm⟩ hsome ?_ (hsplits.evicted hsome)
      intro hall
      rw [hsplit, List.self_eq_append_right] at hall
      rw [hall] at hnewest
      exact List.not_mem_nil hnewest.1
    rw [hsplit, hearly]
    exact hnewest
  · obtain ⟨q', hq', -, haccepts, hsettles⟩ := hshows.query
    refine ⟨q', ?_, ?_, hsettles.only⟩
    · rw [Store.query?_eq, Store.homes_deliver]
      have hhome : w.store.homes.get? query = some q.descriptor.service := run.lives.home hfind
      rw [hhome, Option.bind_some, Store.service_deliver]
      exact hq'
    · rw [← Query.shows_iff, hsettles.shows, haccepts, run.filtered _ query q hfind]

/-! ## Notes that are updated out of order -/

namespace Notes

def done : Change := ⟨.updated, note 1 300 "todo"⟩

/-- An update of the first idea from before it was done. -/
def refined : Change := ⟨.updated, note 1 200 "idea"⟩

theorem isTimed_done : done.IsTimed Conventions.standard (.int 1) :=
  ⟨Or.inl rfl, by decide +kernel, rfl, by decide⟩

theorem isTimed_refined : refined.IsTimed Conventions.standard (.int 1) :=
  ⟨Or.inl rfl, by decide +kernel, rfl, by decide⟩

def fetched : Query := (opened.store.query? ideas.id).get (by decide +kernel)

theorem follows_fetched : fetched.Follows :=
  ⟨by decide +kernel, by decide +kernel, by decide +kernel⟩

/-- The newest update says that the note is no idea any more. If it comes first, the note is
evicted, and the late update brings it back; if it comes last, the note is gone. -/
theorem order_matters :
    (∃ history, Run {} history opened) ∧
      opened.store.query? ideas.id = some fetched ∧ fetched.Follows ∧
      (∀ change ∈ [done, refined], change.IsTimed Conventions.standard (.int 1)) ∧
      (∀ version ∈ ((opened.store.service "notes").entities.get? (.int 1)).toList ++
        fetched.state.shown, Item.time? version = some 100) ∧
      (∀ change ∈ [done, refined], 100 < change.time) ∧ done.IsNewest [done, refined] ∧
      Store.filterOf {} fetched.descriptor fetched.config done.item = false ∧
      (∃ q, (opened.store.deliver {} "notes" [[done], [refined]]).query? ideas.id = some q ∧
        ∃ item ∈ q.state.shown, Conventions.standard.idOf item = some (.int 1)) ∧
      ∃ q, (opened.store.deliver {} "notes" [[refined], [done]]).query? ideas.id = some q ∧
        ∀ item ∈ q.state.shown, Conventions.standard.idOf item ≠ some (.int 1) := by
  have hback : ((opened.store.deliver {} "notes" [[done], [refined]]).query? ideas.id).any
      (fun q => q.state.shown.any fun item =>
        Conventions.standard.idOf item == some (.int 1)) = true := by decide +kernel
  have hgone : ((opened.store.deliver {} "notes" [[refined], [done]]).query? ideas.id).any
      (fun q => q.state.shown.all fun item =>
        Conventions.standard.idOf item != some (.int 1)) = true := by decide +kernel
  obtain ⟨back, hquery, hback⟩ := (Option.any_eq_true _ _).mp hback
  obtain ⟨item, hmem, hitem⟩ := List.any_eq_true.mp hback
  obtain ⟨gone, hquery', hgone⟩ := (Option.any_eq_true _ _).mp hgone
  refine ⟨run_opened, (Option.some_get _).symm, follows_fetched, ?_, by decide +kernel,
    by decide +kernel, ⟨List.mem_cons_self, by decide +kernel⟩, by decide +kernel,
    ⟨back, hquery, item, hmem, beq_iff_eq.mp hitem⟩, gone, hquery', fun item hmem => ?_⟩
  · intro change hmem
    rcases List.mem_pair.mp hmem with rfl | rfl
    · exact isTimed_done
    · exact isTimed_refined
  · exact bne_iff_ne.mp (List.all_eq_true.mp hgone item hmem)

/-- The late update is the newest since the eviction, and it is an idea. -/
theorem refined_is_newest :
    ∃ (early late : List Change) (newest : Change), [done, refined] = early ++ late ∧
      newest.IsNewest late ∧
      ∃ q, (opened.store.deliver {} "notes" [[done], [refined]]).query? ideas.id = some q ∧
        ((∃ item ∈ q.state.shown, Conventions.standard.idOf item = some (.int 1)) ↔
          Store.filterOf {} fetched.descriptor fetched.config newest.item = true) := by
  obtain ⟨history, hrun⟩ := run_opened
  have hlives : opened.store.query? ideas.id = some fetched := (Option.some_get _).symm
  have hservice : fetched.descriptor.service = "notes" := by decide +kernel
  have htimed : ∀ change ∈ [[done], [refined]].flatten,
      change.IsTimed Conventions.standard (.int 1) := by
    intro change hmem
    rcases List.mem_pair.mp hmem with rfl | rfl
    · exact isTimed_done
    · exact isTimed_refined
  have hfresh : ∀ cached ∈ ((opened.store.service fetched.descriptor.service).entities.get?
      (.int 1)).toList, ∀ change ∈ [[done], [refined]].flatten,
      Item.isStale cached change.item = false := by decide +kernel
  obtain ⟨early, late, newest, hsplit, -, hnewest, -, q, hq, hshows, -⟩ :=
    Run.newest_since_eviction hrun rfl hlives (by decide +kernel) follows_fetched.find
      (by decide +kernel) follows_fetched.fetched (by decide) htimed (by decide +kernel)
      fun cached hc => hfresh cached (Option.mem_toList.mpr hc)
  rw [hservice] at hq
  exact ⟨early, late, newest, hsplit, hnewest, q, hq, hshows⟩

end Notes

end LiveQuery
