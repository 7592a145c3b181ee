import LiveQuery.Proofs.Service.Touching
import LiveQuery.Proofs.Store.Delivery
import LiveQuery.Proofs.Store.Listeners
import LiveQuery.Proofs.Store.Settling

/-!
# Who is called for a batch

The calls of a transition come first on the agenda, and their listeners have seen no transition as
late. If nobody calls back, the store therefore makes all of them in their order (`Run.dispatch`),
and never again makes a call of that transition (`Run.not_called_again`). No listener is planned for
twice, since everybody who listens has come once (`Run.distinct`). So a batch calls those who listen
to a query that it touches, once each, those who listen to the whole store, once each, and nobody
else (`Run.batch_told`).
-/

namespace LiveQuery

/-! ## Everybody listens once -/

namespace Registry

def present (a : Registry) : List ListenerId := a.listeners.map Prod.snd ++ a.watchers

/-- Nobody listens twice, and nobody has a number that has not been given yet. -/
structure Distinct (a : Registry) : Prop where
  nodup : a.present.Nodup
  number_le : ∀ l ∈ a.present, l.number ≤ a.registered

variable {a b : Registry} {act : Act} {n? : Option Notice}

theorem Distinct.sublist (h : a.Distinct) (listeners : b.listeners.Sublist a.listeners)
    (watchers : b.watchers.Sublist a.watchers) (registered : b.registered = a.registered) :
    b.Distinct := by
  have hsublist : b.present.Sublist a.present := (listeners.map Prod.snd).append watchers
  refine ⟨hsublist.nodup h.nodup, fun l hl => ?_⟩
  rw [registered]
  exact h.number_le l (hsublist.subset hl)

theorem Distinct.cons (h : a.Distinct)
    (present : b.present.Perm (⟨a.registered + 1⟩ :: a.present))
    (registered : b.registered = a.registered + 1) : b.Distinct := by
  have hnew : (⟨a.registered + 1⟩ : ListenerId) ∉ a.present := fun hmem => by
    have hle : a.registered + 1 ≤ a.registered := h.number_le _ hmem
    omega
  refine ⟨present.nodup_iff.mpr (List.nodup_cons.mpr ⟨hnew, h.nodup⟩), fun l hl => ?_⟩
  rw [registered]
  rcases List.mem_cons.mp (present.mem_iff.mp hl) with rfl | hbefore
  · exact Nat.le_refl _
  · exact (h.number_le l hbefore).trans (Nat.le_succ _)

theorem Distinct.after (h : a.Distinct) : (a.after act).Distinct := by
  cases act with
  | subscribe query =>
    refine h.cons ?_ rfl
    unfold Registry.after present
    rw [List.map_append, List.append_assoc]
    exact List.perm_middle
  | watch =>
    refine h.cons ?_ rfl
    unfold Registry.after present
    rw [← List.append_assoc]
    exact List.perm_append_singleton _ _
  | unsubscribe => exact h.sublist List.filter_sublist (List.Sublist.refl _) rfl
  | unwatch => exact h.sublist (List.Sublist.refl _) List.filter_sublist rfl
  | materialize | refetch | emit | flush | mutated | answered | timedOut | tick | goOn | giveBack =>
    exact h

theorem Distinct.hearing (h : a.Distinct) : (a.hearing n?).Distinct := by
  cases n? with
  | none => exact h
  | some n => exact h.sublist (List.Sublist.refl _) (List.Sublist.refl _) rfl

theorem Distinct.query_eq {x y : QueryId} {l : ListenerId} (h : a.Distinct)
    (hx : (x, l) ∈ a.listeners) (hy : (y, l) ∈ a.listeners) : x = y := by
  have hmap : (a.listeners.map Prod.snd).Nodup := (List.nodup_append.mp h.nodup).1
  exact congrArg Prod.fst (List.inj_on_of_nodup_map hmap hx hy rfl)

end Registry

variable {setup : Setup} {history since : List Happening} {w v last : World}
variable {x : QueryId} {l : ListenerId} {n : Notice} {calls : List Notice}

theorem Run.distinct (run : Run setup history w) : w.store.registry.Distinct := by
  induction history using List.reverseRecOn generalizing w with
  | nil =>
    obtain rfl := run_nil.mp run
    exact ⟨List.nodup_nil, List.forall_mem_nil _⟩
  | append_singleton history last ih =>
    obtain ⟨hrun, hoccurs, rfl⟩ := run.concat
    rw [hoccurs.registry_eq]
    exact (ih hrun).after.hearing

/-! ## Making calls -/

/-- A call as a turn of the store. -/
def Notice.turn (n : Notice) : Turn := .work n.work

theorem Notice.notice?_turn (n : Notice) : n.turn.notice? = some n := rfl

theorem filterMap_notice?_work (calls : List Notice) :
    (calls.map Notice.work).filterMap Work.notice? = calls := by
  rw [List.filterMap_map]
  exact List.filterMap_some

theorem Run.world_eq (run : Run setup history w) (run' : Run setup history v) : w = v := by
  rcases List.eq_nil_or_concat history with rfl | ⟨history, last, rfl⟩
  · exact (run_nil.mp run).trans (run_nil.mp run').symm
  · rw [List.concat_eq_append] at run run'
    exact run.concat.2.2.trans run'.concat.2.2.symm

theorem Run.next {h : Happening} (run : Run setup history w)
    (onward : Run setup (history ++ h :: since) last) :
    h.before = w ∧ h.Occurs setup ∧ Run setup (history ++ [h]) h.after := by
  have hnext := onward.until
  obtain ⟨hrun, hoccurs, -⟩ := hnext.concat
  exact ⟨hrun.world_eq run, hoccurs, hnext⟩

theorem mem_due (h : n.turn ∈ w.agenda) : n ∈ w.due :=
  List.mem_filterMap.mpr ⟨n.turn, h, n.notice?_turn⟩

theorem World.due_of_refetches {again : List QueryId} {rest : List Turn}
    (agenda : w.agenda = (again.map Work.refetch).map Turn.work ++ rest) :
    w.due = rest.filterMap Turn.notice? := by
  rw [World.due, agenda, List.map_map, List.filterMap_append, List.filterMap_map,
    List.filterMap_eq_nil_iff.mpr, List.nil_append]
  exact fun _ _ => rfl

/-- The world in which a listener is being called: it is known what it is told, and it has
control. -/
def World.calling (w : World) (n : Notice) (rest : List Turn) : World :=
  { w with
    store := { w.store with seen := w.store.seen.insert n.listener n.transition }
    agenda := .outside :: rest }

theorem World.act?_call {rest : List Turn} (agenda : w.agenda = n.turn :: rest)
    (unseen : w.store.seenBy n.listener < n.transition) :
    w.act? setup .goOn = some (w.calling n rest, some (.call n.listener n.payload)) := by
  have hunseen : (w.store.seen.get? n.listener).getD 0 < n.transition := unseen
  simp only [World.act?, agenda, Notice.turn, Notice.work, Store.run, if_pos hunseen]
  rfl

theorem World.seenBy_calling {rest : List Turn} (other : n.listener ≠ l) :
    (w.calling n rest).store.seenBy l = w.store.seenBy l := by
  show ((w.store.seen.insert n.listener n.transition).get? l).getD 0 = _
  rw [Table.get?_insert, if_neg other]
  rfl

/-- Where a call is next and its listener has not seen as late a transition, it is made. -/
theorem Run.called {h : Happening} {rest : List Turn} (run : Run setup history w)
    (agenda : w.agenda = n.turn :: rest) (unseen : w.store.seenBy n.listener < n.transition)
    (onward : Run setup (history ++ h :: since) last) :
    h.handed? = some n ∧ h.after = w.calling n rest ∧ Run setup (history ++ [h]) h.after := by
  obtain ⟨hbefore, hoccurs, hrun⟩ := run.next onward
  have hact := hoccurs.act
  rw [hbefore] at hact
  rw [World.eq_goOn_of_work agenda hact, World.act?_call agenda unseen] at hact
  obtain ⟨hafter, hsignal⟩ := Prod.mk.inj (Option.some.inj hact)
  refine ⟨?_, hafter.symm, hrun⟩
  rw [Happening.handed?, ← hsignal, hbefore, agenda]
  rfl

theorem Run.gaveBack {h : Happening} {rest : List Turn} (run : Run setup history w)
    (agenda : w.agenda = .outside :: rest) (onward : Run setup (history ++ h :: since) last)
    (passive : h.act = .goOn ∨ h.act = .giveBack) :
    h.handed? = none ∧ h.after = { w with agenda := rest } ∧
      Run setup (history ++ [h]) h.after := by
  obtain ⟨hbefore, hoccurs, hrun⟩ := run.next onward
  have hact := hoccurs.act
  rcases passive with hgoOn | hback
  · rw [hbefore, hgoOn] at hact
    simp [World.act?, agenda] at hact
  · rw [hbefore, hback] at hact
    simp only [World.act?, agenda] at hact
    obtain ⟨hafter, hsignal⟩ := Prod.mk.inj (Option.some.inj hact)
    refine ⟨?_, hafter.symm, hrun⟩
    rw [Happening.handed?, ← hsignal]

/-- If the store goes on with calls that are due and nobody calls back, it has made some of them and
the others are still due, or it has made all of them, in their order, and comes to what is left to
be done then. -/
theorem Run.dispatch {more : List Turn} (run : Run setup history w)
    (agenda : w.agenda = calls.map Notice.turn ++ more)
    (distinct : (calls.map Notice.listener).Nodup)
    (unseen : ∀ n ∈ calls, w.store.seenBy n.listener < n.transition)
    (onward : Run setup (history ++ since) last)
    (passive : ∀ h ∈ since, h.act = .goOn ∨ h.act = .giveBack) :
    (∃ waiting, since.filterMap Happening.handed? ++ waiting = calls ∧
      ∀ n ∈ waiting, n ∈ last.due) ∨
    ∃ made rest v, since = made ++ rest ∧ made.filterMap Happening.handed? = calls ∧
      Run setup (history ++ made) v ∧ v.agenda = more ∧
      v.store.transitions = w.store.transitions := by
  induction calls generalizing history w since with
  | nil =>
    exact Or.inr ⟨[], since, w, rfl, rfl, by rwa [List.append_nil], agenda, rfl⟩
  | cons n calls ih =>
    rw [List.map_cons, List.cons_append] at agenda
    rw [List.map_cons, List.nodup_cons] at distinct
    rw [List.forall_mem_cons] at unseen
    have hlater : ∀ m ∈ calls, m.turn ∈ calls.map Notice.turn ++ more := fun m hm =>
      List.mem_append_left _ (List.mem_map_of_mem hm)
    rcases since with _ | ⟨call, _ | ⟨back, since⟩⟩
    · rw [List.append_nil] at onward
      obtain rfl := onward.world_eq run
      refine Or.inl ⟨n :: calls, rfl, List.forall_mem_cons.mpr ⟨?_, fun m hm => ?_⟩⟩
      · exact mem_due (agenda ▸ List.mem_cons_self)
      · exact mem_due (agenda ▸ List.mem_cons_of_mem _ (hlater m hm))
    · obtain ⟨hhanded, hcalling, hcalled⟩ := run.called agenda unseen.1 onward
      obtain rfl := onward.world_eq hcalled
      refine Or.inl ⟨calls, ?_, fun m hm => mem_due ?_⟩
      · rw [List.filterMap_cons_some hhanded]
        rfl
      · rw [hcalling]
        exact List.mem_cons_of_mem _ (hlater m hm)
    · obtain ⟨hhanded, hcalling, hcalled⟩ := run.called agenda unseen.1 onward
      rw [List.append_cons] at onward
      obtain ⟨hsilent, hback, hreturned⟩ := hcalled.gaveBack (by rw [hcalling]; rfl) onward
        (passive back (List.mem_cons_of_mem _ List.mem_cons_self))
      have hseen : ∀ m ∈ calls, back.after.store.seenBy m.listener < m.transition := by
        intro m hm
        have hother : n.listener ≠ m.listener := fun heq =>
          distinct.1 (heq ▸ List.mem_map_of_mem hm)
        rw [hback, hcalling]
        show (w.calling n (calls.map Notice.turn ++ more)).store.seenBy m.listener < _
        rw [World.seenBy_calling hother]
        exact unseen.2 m hm
      have hfirst : ∀ rest : List Happening, (call :: back :: rest).filterMap
          Happening.handed? = n :: rest.filterMap Happening.handed? := fun rest => by
        rw [List.filterMap_cons_some hhanded, List.filterMap_cons_none hsilent]
      rw [List.append_cons] at onward
      rcases ih hreturned (by rw [hback]) distinct.2 hseen onward fun h hh =>
          passive h (List.mem_cons_of_mem _ (List.mem_cons_of_mem _ hh)) with
        ⟨waiting, hmade, hwaiting⟩ | ⟨made, rest, v, rfl, hmade, hrun, hrest, htransitions⟩
      · refine Or.inl ⟨waiting, ?_, hwaiting⟩
        rw [hfirst, List.cons_append, hmade]
      · refine Or.inr ⟨call :: back :: made, rest, v, rfl, ?_, ?_, hrest, ?_⟩
        · rw [hfirst, hmade]
        · rw [List.append_cons, List.append_cons]
          exact hrun
        · rw [htransitions, hback, hcalling]
          rfl

theorem Run.not_called_again {t : Nat} (run : Run setup history w)
    (cleared : ∀ n ∈ w.due, n.transition ≠ t) (past : t ≤ w.store.transitions)
    (onward : Run setup (history ++ since) last) :
    (∀ n ∈ since.filterMap Happening.handed?, n.transition ≠ t) ∧
      (∀ n ∈ last.due, n.transition ≠ t) ∧ t ≤ last.store.transitions := by
  induction since using List.reverseRecOn generalizing last with
  | nil =>
    rw [List.append_nil] at onward
    obtain rfl := onward.world_eq run
    exact ⟨List.forall_mem_nil _, cleared, past⟩
  | append_singleton since final ih =>
    rw [← List.append_assoc] at onward
    obtain ⟨hrun, hoccurs, rfl⟩ := onward.concat
    obtain ⟨hmade, hover, hpast⟩ := ih hrun
    refine ⟨fun n hn => ?_, fun n hn => ?_, hpast.trans hoccurs.transitions_le⟩
    · rw [List.filterMap_append] at hn
      rcases List.mem_append.mp hn with hn | hn
      · exact hmade n hn
      · obtain ⟨h, hh, hhanded⟩ := List.mem_filterMap.mp hn
        obtain rfl := List.mem_singleton.mp hh
        exact hover n (hoccurs.due_of_handed hhanded)
    · rcases hoccurs.notice_or_due hn with hnow | hbefore
      · obtain ⟨htransition, -, -⟩ := hoccurs.transition_of_notice hnow
        omega
      · exact hover n hbefore

theorem Run.resumes (run : Run setup history w)
    (path : Relation.ReflTransGen (World.Resumes setup) w v) :
    ∃ since, Run setup (history ++ since) v ∧ ∀ h ∈ since, h.act = .goOn ∨ h.act = .giveBack := by
  induction path with
  | refl => exact ⟨[], by rwa [List.append_nil], List.forall_mem_nil _⟩
  | @tail v u _ resumes ih =>
    obtain ⟨since, hrun, hpassive⟩ := ih
    obtain ⟨a, signal, ha, hact⟩ := resumes
    refine ⟨since ++ [⟨v, a, signal, u⟩], ?_, fun h hh => ?_⟩
    · rw [← List.append_assoc]
      exact .act hrun hact
    · rcases List.mem_append.mp hh with hh | hh
      · exact hpassive h hh
      · obtain rfl := List.mem_singleton.mp hh
        exact ha

/-! ## The calls of a transition -/

namespace Store

variable {s : Store} {touched : List QueryId} {name : String} {changes : List Change}

theorem mem_listenersOf : l ∈ s.listenersOf x ↔ (x, l) ∈ s.listeners := by
  simp [listenersOf]

theorem exists_calls_notify (touched : List QueryId) :
    ∃ calls : List Notice, (s.notify touched).2 = calls.map Notice.work ∧
      calls.map Notice.listener =
        (touched.filter fun x => (s.query? x).isSome).flatMap s.listenersOf ++ s.watchers := by
  have hplan : ∀ (ls : List ListenerId) (payload : Payload),
      ∃ calls : List Notice, (ls.map fun l => Work.call (s.transitions + 1) l payload) =
        calls.map Notice.work ∧ calls.map Notice.listener = ls := fun ls payload =>
    ⟨ls.map fun l => ⟨s.transitions + 1, l, payload⟩, by rw [List.map_map]; rfl,
      by rw [List.map_map]; exact List.map_id _⟩
  obtain ⟨last, hlast, hwatchers⟩ := hplan s.watchers (.snapshot s.services)
  unfold notify
  dsimp only
  rw [hlast]
  induction touched with
  | nil => exact ⟨last, rfl, hwatchers⟩
  | cons x touched ih =>
    obtain ⟨calls, hcalls, hlisteners⟩ := ih
    rw [List.flatMap_cons, List.append_assoc, hcalls, List.filter_cons]
    cases hq : s.query? x with
    | none => exact ⟨calls, rfl, hlisteners⟩
    | some q =>
      obtain ⟨first, hfirst, hx⟩ := hplan (s.listenersOf x) (.state q.state)
      refine ⟨first ++ calls, ?_, ?_⟩
      · dsimp only
        rw [hfirst, List.map_append]
      · rw [List.map_append, hx, hlisteners, Option.isSome_some, if_pos rfl, List.flatMap_cons,
          List.append_assoc]

theorem nodup_listeners (distinct : s.registry.Distinct) (nodup : touched.Nodup) :
    (touched.flatMap s.listenersOf ++ s.watchers).Nodup := by
  obtain ⟨hlisteners, hwatchers, hdisjoint⟩ := List.nodup_append.mp distinct.nodup
  refine List.nodup_append.mpr ⟨?_, hwatchers, fun l hl => ?_⟩
  · refine List.nodup_flatMap.mpr ⟨fun x _ => ?_, nodup.imp fun hne l hx hy => ?_⟩
    · exact (List.filter_sublist.map Prod.snd).nodup hlisteners
    · exact hne (distinct.query_eq (mem_listenersOf.mp hx) (mem_listenersOf.mp hy))
  · obtain ⟨x, -, hx⟩ := List.mem_flatMap.mp hl
    exact hdisjoint l (List.mem_map_of_mem (mem_listenersOf.mp hx))

theorem query?_apply_of_not_touched
    (h : x ∉ ((s.service name).mergeAll setup.conventions changes).touched) :
    (s.apply setup name changes).1.query? x = s.query? x := by
  rw [query?_eq, query?_eq, homes_apply, service_apply]
  refine Option.bind_congr fun home _ => ?_
  rw [Function.update_apply]
  split
  · next hhome => rw [hhome, Service.get?_mergeAll_of_not_touched h]
  · rfl

theorem query?_apply_of_home (home : s.homes.get? x = some name) :
    (s.apply setup name changes).1.query? x =
      ((s.service name).mergeAll setup.conventions changes).service.queries.get? x := by
  rw [query?_eq, homes_apply, service_apply, home, Option.bind_some, Function.update_self]

theorem apply_of_not_admitted
    (h : ((s.service name).mergeAll setup.conventions changes).admitted = 0) :
    (s.apply setup name changes).2 = [] ∧
      (s.apply setup name changes).1.transitions = s.transitions := by
  unfold apply
  dsimp only
  rw [if_pos h]
  exact ⟨rfl, rfl⟩

theorem apply_of_admitted
    (h : ((s.service name).mergeAll setup.conventions changes).admitted ≠ 0) :
    ∃ (base : Store) (again : List QueryId),
      base = s.setService name ((s.service name).mergeAll setup.conventions changes).service ∧
      s.apply setup name changes =
        ((base.notify ((s.service name).mergeAll setup.conventions changes).touched).1,
          (base.notify ((s.service name).mergeAll setup.conventions changes).touched).2 ++
            again.map Work.refetch) := by
  unfold apply
  dsimp only
  rw [if_neg h]
  exact ⟨_, _, rfl, rfl⟩

theorem transitions_apply_of_admitted
    (h : ((s.service name).mergeAll setup.conventions changes).admitted ≠ 0) :
    (s.apply setup name changes).1.transitions = s.transitions + 1 ∧
      (s.apply setup name changes).1.seen = s.seen := by
  obtain ⟨base, again, hbase, happly⟩ := apply_of_admitted h
  rw [happly, hbase]
  exact ⟨rfl, rfl⟩

/-- The calls that are to be made if some change is applied, before fetches are begun: each once. -/
theorem exists_calls_apply (distinct : s.registry.Distinct)
    (h : ((s.service name).mergeAll setup.conventions changes).admitted ≠ 0) :
    ∃ (calls : List Notice) (again : List QueryId),
      (s.apply setup name changes).2 = calls.map Notice.work ++ again.map Work.refetch ∧
      (calls.map Notice.listener).Nodup ∧
      ∀ n, n ∈ calls ↔ n.transition = s.transitions + 1 ∧
        ((∃ x ∈ ((s.service name).mergeAll setup.conventions changes).touched,
            (x, n.listener) ∈ s.listeners ∧ ∃ state,
              (s.apply setup name changes).1.state? x = some state ∧ n.payload = .state state) ∨
          n.listener ∈ s.watchers ∧
            n.payload = .snapshot (s.apply setup name changes).1.services) := by
  have htouched : ((s.service name).mergeAll setup.conventions changes).touched.Nodup :=
    Service.nodup_touched changes
  obtain ⟨base, again, hbase, happly⟩ := apply_of_admitted h
  obtain ⟨calls, hcalls, hlisteners⟩ :=
    base.exists_calls_notify ((s.service name).mergeAll setup.conventions changes).touched
  have hregistry : base.registry = s.registry := by
    rw [hbase]
    rfl
  refine ⟨calls, again, by rw [happly, hcalls], ?_, fun n => ?_⟩
  · rw [hlisteners]
    exact nodup_listeners (hregistry ▸ distinct) (htouched.filter _)
  · rw [← filterMap_notice?_work calls, ← hcalls, mem_notices_notify, happly, hbase]
    rfl

end Store

/-- The calls of one transition that a listener has received. -/
def receivedIn (history : List Happening) (t : Nat) (l : ListenerId) : List Notice :=
  (received history l).filter (·.transition = t)

theorem receivedIn_eq (history : List Happening) (t : Nat) (l : ListenerId) :
    receivedIn history t l =
      ((history.filterMap Happening.handed?).filter (·.transition = t)).filter
        (·.listener = l) := by
  rw [List.filter_filter, receivedIn, received]
  rw [show (fun h : Happening => h.handedTo? l) =
    fun h => Option.filter (·.listener = l) h.handed? from rfl, ← List.filter_filterMap,
    List.filter_filter]
  exact List.filter_congr fun n _ => Bool.and_comm _ _

/-- The store does what is next on its agenda and goes on, and nobody calls back, until no call of
the next transition is left to be made. -/
structure Dispatched (setup : Setup) (history : List Happening) (w : World)
    (onward : List Happening) (last : World) : Prop where
  run : Run setup (history ++ onward) last
  begun : onward ≠ []
  passive : ∀ h ∈ onward, h.act = .goOn ∨ h.act = .giveBack
  made : ∀ n ∈ last.due, n.transition ≠ w.store.transitions + 1

theorem Run.exists_dispatched {turn : Turn} {rest : List Turn} (run : Run setup history w)
    (agenda : w.agenda = turn :: rest) : ∃ onward last, Dispatched setup history w onward last := by
  obtain ⟨last, hpath, hrests⟩ := World.exists_settled setup w
  obtain ⟨onward, honward, hpassive⟩ := run.resumes hpath
  refine ⟨onward, last, honward, ?_, hpassive, ?_⟩
  · rintro rfl
    rw [List.append_nil] at honward
    rw [honward.world_eq run, agenda] at hrests
    cases hrests
  · intro n hn
    rw [World.due, hrests] at hn
    cases hn

namespace Dispatched

variable {onward : List Happening} {name : String} {changes : List Change} {rest : List Turn}

theorem first (d : Dispatched setup history w onward last) (run : Run setup history w)
    (agenda : w.agenda = .work (.apply name changes) :: rest) :
    ∃ applied since, onward = applied :: since ∧ applied.handed? = none ∧
      applied.after.store = (w.store.apply setup name changes).1 ∧
      applied.after.agenda = (w.store.apply setup name changes).2.map .work ++ rest := by
  obtain ⟨applied, since, rfl⟩ := List.exists_cons_of_ne_nil d.begun
  obtain ⟨hbefore, hoccurs, -⟩ := run.next d.run
  have hact := hoccurs.act
  rw [hbefore] at hact
  rw [World.eq_goOn_of_work agenda hact] at hact
  simp only [World.act?, agenda, Store.run] at hact
  obtain ⟨hafter, hsignal⟩ := Prod.mk.inj (Option.some.inj hact)
  refine ⟨applied, since, rfl, ?_, ?_, ?_⟩
  · rw [Happening.handed?, ← hsignal]
  · rw [← hafter]
    rfl
  · rw [← hafter]
    rfl

theorem handed (d : Dispatched setup history w onward last) (run : Run setup history w)
    (agenda : w.agenda = .work (.apply name changes) :: rest) {again : List QueryId}
    (works : (w.store.apply setup name changes).2 =
      calls.map Notice.work ++ again.map Work.refetch)
    (admitted : ((w.store.service name).mergeAll setup.conventions changes).admitted ≠ 0)
    (distinct : (calls.map Notice.listener).Nodup)
    (numbered : ∀ n ∈ calls, n.transition = w.store.transitions + 1) :
    (onward.filterMap Happening.handed?).filter (·.transition = w.store.transitions + 1) =
      calls := by
  obtain ⟨applied, since, rfl, hsilent, hstore, hagenda⟩ := d.first run agenda
  obtain ⟨-, -, happlied⟩ := run.next d.run
  obtain ⟨hdue, hseen⟩ := run.due_le
  obtain ⟨htransition, hsame⟩ := Store.transitions_apply_of_admitted admitted
  have honward := d.run
  rw [List.append_cons] at honward
  rw [works, List.map_append, List.append_assoc, List.map_map] at hagenda
  have hunseen : ∀ n ∈ calls, applied.after.store.seenBy n.listener < n.transition := by
    intro n hn
    rw [numbered n hn, hstore, Store.seenBy, hsame]
    exact Nat.lt_succ_of_le (hseen n.listener)
  have hpassive : ∀ h ∈ since, h.act = .goOn ∨ h.act = .giveBack := fun h hh =>
    d.passive h (List.mem_cons_of_mem _ hh)
  have hall : calls.filter (·.transition = w.store.transitions + 1) = calls :=
    List.filter_eq_self.mpr fun n hn => decide_eq_true (numbered n hn)
  rw [List.filterMap_cons_none hsilent]
  rcases happlied.dispatch hagenda distinct hunseen honward hpassive with
    ⟨waiting, hmade, hwaiting⟩ | ⟨made, later, v, rfl, hmade, hrun, hrest, htransitions⟩
  · have hnone : waiting = [] := by
      refine List.eq_nil_iff_forall_not_mem.mpr fun n hn => d.made n (hwaiting n hn) ?_
      exact numbered n (hmade ▸ List.mem_append_right _ hn)
    rw [hnone, List.append_nil] at hmade
    rw [hmade, hall]
  · have hover : ∀ n ∈ v.due, n.transition ≠ w.store.transitions + 1 := by
      intro n hn
      have hle : n.transition ≤ w.store.transitions := by
        refine hdue n ?_
        rw [World.due_of_refetches hrest] at hn
        rw [World.due, agenda]
        exact hn
      omega
    rw [← List.append_assoc] at honward
    obtain ⟨hlater, -, -⟩ := hrun.not_called_again hover
      (by rw [htransitions, hstore, htransition]) honward
    rw [List.filterMap_append, List.filter_append, hmade, hall, List.append_right_eq_self]
    exact List.filter_eq_nil_iff.mpr fun n hn => by simpa using hlater n hn

end Dispatched

theorem filter_listener_eq (distinct : (calls.map Notice.listener).Nodup) (mem : n ∈ calls) :
    calls.filter (·.listener = n.listener) = [n] := by
  induction calls with
  | nil => cases mem
  | cons m calls ih =>
    obtain ⟨hnew, hdistinct⟩ := List.nodup_cons.mp (List.map_cons ▸ distinct)
    rcases List.mem_cons.mp mem with rfl | mem
    · rw [List.filter_cons_of_pos (by simp), List.filter_eq_nil_iff.mpr]
      intro m hm heq
      exact hnew (of_decide_eq_true heq ▸ List.mem_map_of_mem hm)
    · rw [List.filter_cons_of_neg, ih hdistinct mem]
      intro heq
      exact hnew (of_decide_eq_true heq ▸ List.mem_map_of_mem mem)

/-- Is a listener told of a transition that touches some queries, and told right? Whoever listens to
a touched query is called once, with the state of the query after the transition; whoever listens to
the whole store is called once, with all that is there after it; and nobody else is called. -/
structure ToldOnce (s next : Store) (touched : List QueryId) (onward : List Happening)
    (l : ListenerId) : Prop where
  query : ∀ x ∈ touched, (x, l) ∈ s.listeners → ∃ q, next.query? x = some q ∧
    receivedIn onward (s.transitions + 1) l = [⟨s.transitions + 1, l, .state q.state⟩]
  whole : l ∈ s.watchers → receivedIn onward (s.transitions + 1) l =
    [⟨s.transitions + 1, l, .snapshot next.services⟩]
  others : (∀ x ∈ touched, (x, l) ∉ s.listeners) → l ∉ s.watchers →
    receivedIn onward (s.transitions + 1) l = []

/-- A batch that is applied to a service touches the queries that its applied changes hit, each
once, and no other query of the store changes. If a change is applied and nobody calls back, then
everybody is told once of the state after the whole batch who listens to a touched query or to the
whole store, and nobody else is called for it. If no change is applied, nobody is. -/
theorem Run.batch_told (run : Run setup history w) (name : String) (changes : List Change) :
    ((w.store.service name).mergeAll setup.conventions changes).touched.Nodup ∧
    (∀ x, x ∈ ((w.store.service name).mergeAll setup.conventions changes).touched ↔
      ∃ now id change, (w.store.service name).Applies setup.conventions changes now id change ∧
        (x ∈ now.index.holders id ∨
          x ∈ (now.mergeChange setup.conventions id change).index.holders id)) ∧
    (∀ x ∉ ((w.store.service name).mergeAll setup.conventions changes).touched,
      (w.store.apply setup name changes).1.query? x = w.store.query? x) ∧
    (∀ other ≠ name, (w.store.apply setup name changes).1.service other = w.store.service other) ∧
    ((¬∃ now id change, (w.store.service name).Applies setup.conventions changes now id change) →
      (w.store.apply setup name changes).2 = [] ∧
      (w.store.apply setup name changes).1.transitions = w.store.transitions) ∧
    ((∃ now id change, (w.store.service name).Applies setup.conventions changes now id change) →
      ∀ rest, w.agenda = .work (.apply name changes) :: rest →
        (∃ onward last, Dispatched setup history w onward last) ∧
        ∀ onward last, Dispatched setup history w onward last →
          (∃ applied since, onward = applied :: since ∧
            applied.after.store = (w.store.apply setup name changes).1) ∧
          ∀ l, ToldOnce w.store (w.store.apply setup name changes).1
            ((w.store.service name).mergeAll setup.conventions changes).touched onward l) := by
  refine ⟨Service.nodup_touched changes, fun x => (run.mirror name).mem_touched,
    fun x hx => Store.query?_apply_of_not_touched hx, fun other hother => ?_, fun hnone => ?_,
    fun hsome rest agenda => ⟨run.exists_dispatched agenda, fun onward last d => ?_⟩⟩
  · rw [Store.service_apply, Function.update_of_ne hother]
  · exact Store.apply_of_not_admitted (Service.admitted_eq_zero.mpr hnone)
  have hadmitted : ((w.store.service name).mergeAll setup.conventions changes).admitted ≠ 0 :=
    fun hzero => Service.admitted_eq_zero.mp hzero hsome
  obtain ⟨calls, again, hworks, hdistinct, hmem⟩ :=
    Store.exists_calls_apply run.distinct hadmitted
  have hcalls := d.handed run agenda hworks hadmitted hdistinct fun n hn => ((hmem n).mp hn).1
  have hreceived : ∀ l, receivedIn onward (w.store.transitions + 1) l =
      calls.filter (·.listener = l) := fun l => by rw [receivedIn_eq, hcalls]
  obtain ⟨applied, since, honward, -, hstore, -⟩ := d.first run agenda
  refine ⟨⟨applied, since, honward, hstore⟩, fun l => ⟨fun x hx hl => ?_, fun hl => ?_,
    fun hnone hl => ?_⟩⟩
  · obtain ⟨p, hp⟩ := Service.exists_query_of_touched hx
    obtain ⟨q, hq⟩ : ∃ q, ((w.store.service name).mergeAll setup.conventions
        changes).service.queries.get? x = some q := Service.exists_query_mergeAll hp changes
    have hquery : (w.store.apply setup name changes).1.query? x = some q :=
      (Store.query?_apply_of_home (run.lives.home hp)).trans hq
    have hcalled : ⟨w.store.transitions + 1, l, .state q.state⟩ ∈ calls := by
      refine (hmem _).mpr ⟨rfl, Or.inl ⟨x, hx, hl, q.state, ?_, rfl⟩⟩
      rw [Store.state?, hquery]
      rfl
    exact ⟨q, hquery, (hreceived l).trans (filter_listener_eq hdistinct hcalled)⟩
  · have hcalled : ⟨w.store.transitions + 1, l,
        .snapshot (w.store.apply setup name changes).1.services⟩ ∈ calls :=
      (hmem _).mpr ⟨rfl, Or.inr ⟨hl, rfl⟩⟩
    exact (hreceived l).trans (filter_listener_eq hdistinct hcalled)
  · rw [hreceived, List.filter_eq_nil_iff]
    intro n hn heq
    obtain rfl := of_decide_eq_true heq
    rcases ((hmem n).mp hn).2 with ⟨x, hx, hlistens, -⟩ | ⟨hwatches, -⟩
    · exact hnone x hx hlistens
    · exact hl hwatches

/-! ## A note that is written twice in a batch -/

namespace Notes

/-- A second note is created and rewritten, and the first is done. -/
def rewriting : List Change :=
  [⟨.created, note 2 200 "idea"⟩, ⟨.updated, note 2 300 "idea"⟩, ⟨.updated, note 1 300 "todo"⟩]

def writing : List Act :=
  .watch :: rewriting.flatMap (fun change => [.emit ⟨"notes", change⟩, .goOn]) ++ [.flush]

def written : World := opened.play {} writing

/-- The batch hits the ideas three times. Whoever listens to them is called once, and is shown the
second note alone. -/
theorem ideas_told_once :
    ∃ history onward last, Run {} history written ∧ Dispatched {} history written onward last ∧
      (∃ q, (written.store.apply {} "notes" rewriting).1.query? ideas.id = some q ∧
        receivedIn onward (written.store.transitions + 1) ⟨1⟩ =
          [⟨written.store.transitions + 1, ⟨1⟩, .state q.state⟩] ∧
        q.state.shown.map Conventions.standard.idOf = [some (.int 2)]) ∧
      (∃ services, receivedIn onward (written.store.transitions + 1) ⟨2⟩ =
        [⟨written.store.transitions + 1, ⟨2⟩, .snapshot services⟩]) ∧
      receivedIn onward (written.store.transitions + 1) ⟨3⟩ = [] := by
  obtain ⟨history, hopened⟩ := run_opened
  have hrun : Run {} _ written := hopened.play writing
  obtain ⟨-, -, -, -, -, htold⟩ := Run.batch_told hrun "notes" rewriting
  have hadmitted : ((written.store.service "notes").mergeAll Conventions.standard
      rewriting).admitted ≠ 0 := by decide +kernel
  have hagenda : written.agenda = [.work (.apply "notes" rewriting)] := rfl
  have hshown : ((written.store.apply {} "notes" rewriting).1.query? ideas.id).map
      (fun q => q.state.shown.map Conventions.standard.idOf) = some [some (.int 2)] := by
    decide +kernel
  obtain ⟨⟨onward, last, d⟩, hall⟩ :=
    htold (by_contra fun hnone => hadmitted (Service.admitted_eq_zero.mpr hnone)) [] hagenda
  obtain ⟨-, htold⟩ := hall onward last d
  obtain ⟨q, hq, hcalled⟩ := (htold ⟨1⟩).query ideas.id (by decide +kernel) (by decide +kernel)
  rw [hq] at hshown
  exact ⟨_, onward, last, hrun, d, ⟨q, hq, hcalled, Option.some.inj hshown⟩,
    ⟨_, (htold ⟨2⟩).whole (by decide +kernel)⟩,
    (htold ⟨3⟩).others (by decide +kernel) (by decide +kernel)⟩

end Notes

end LiveQuery
