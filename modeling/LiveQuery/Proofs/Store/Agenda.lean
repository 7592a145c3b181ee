import LiveQuery.Proofs.Store.Notices

/-!
# What acts put on the agenda

Apart from calls of listeners and fetches to hand out, an act puts little on the agenda:
`World.errands` says once what it is (`World.filter_isErrand`), so that whatever is read off the
agenda and does not look at calls and fetches is known after every act (`World.flatMap_agenda`).
An act does the work that is first on the agenda, or none, and what it asks of the outside is asked
by that work (`World.asks_of_act`).

The store's *reception*, the batch of events that wait and the services whose events are delivered,
changes only where events arrive, a batch is drained or a binding is kept
(`World.reception_transition`).

Two kinds of errands are prompt: a timer to be started and a service to be bound. They are planned
alone and by the outside, so they are never behind other work (`Run.prompt`).
-/

namespace LiveQuery

/-- Is a piece of work something else than a call of a listener or a fetch to hand out? -/
def Work.isErrand : Work → Bool
  | .call _ _ _ | .launch _ => false
  | .startTimer _ _ | .refetch _ | .apply _ _ | .bind _ | .keepBinding _ => true

/-- Is an errand done before anything else can happen? -/
def Work.isPrompt : Work → Bool
  | .startTimer _ _ | .bind _ => true
  | .call _ _ _ | .launch _ | .refetch _ | .apply _ _ | .keepBinding _ => false

def Turn.isPrompt : Turn → Bool
  | .work job => job.isPrompt
  | .outside => false

/-- The queries that are to be fetched again once changes of a service have been applied. -/
def Store.refetched (setup : Setup) (s : Store) (name : String) (changes : List Change) :
    List QueryId :=
  let merged := (s.service name).mergeAll setup.conventions changes
  if merged.admitted = 0 then [] else merged.service.refetching.filter s.hasListener

def World.errands (setup : Setup) (w : World) : Act → List Work
  | .materialize ref =>
    if ref.config.realtime = .disabled then [] else [.bind ref.descriptor.service]
  | .emit event =>
    if setup.batchInterval = 0 then [.apply event.service [event.change]]
    else if w.store.batch.scheduled then []
    else [.startTimer w.store.batch.window (w.clock + setup.batchInterval)]
  | .flush => Store.applyEvents w.store.batch.queue
  | .timedOut window =>
    if window = w.store.batch.window then Store.applyEvents w.store.batch.queue else []
  | .mutated service change => [.apply service [change]]
  | .goOn =>
    match w.agenda with
    | .work (.apply name changes) :: _ => (w.store.refetched setup name changes).map .refetch
    | .work (.bind name) :: _ => if name ∈ w.store.bound then [] else [.keepBinding name]
    | _ => []
  | .subscribe _ | .unsubscribe _ _ _ | .refetch _ | .watch | .unwatch _ | .answered _ _ _
  | .tick _ | .giveBack => []

/-- Which act an errand comes of, and when. Applying changes is never planned by other work. -/
inductive World.Errand (setup : Setup) (w : World) : Act → Work → Prop where
  | apply {a : Act} {service : String} {changes : List Change} (goOn : a ≠ .goOn) :
      Errand setup w a (.apply service changes)
  | startTimer {event : Event} (batches : setup.batchInterval ≠ 0)
      (idle : w.store.batch.scheduled = false) :
      Errand setup w (.emit event)
        (.startTimer w.store.batch.window (w.clock + setup.batchInterval))
  | bind {ref : QueryRef} (follows : ref.config.realtime ≠ .disabled) :
      Errand setup w (.materialize ref) (.bind ref.descriptor.service)
  | keepBinding {name : String} {others : List Turn}
      (agenda : w.agenda = .work (.bind name) :: others) (free : name ∉ w.store.bound) :
      Errand setup w .goOn (.keepBinding name)
  | refetch {name : String} {changes : List Change} {others : List Turn} {query : QueryId}
      (agenda : w.agenda = .work (.apply name changes) :: others)
      (wanted : query ∈ w.store.refetched setup name changes) :
      Errand setup w .goOn (.refetch query)

def World.done (w : World) (a : Act) : List Work :=
  match a, w.agenda with
  | .goOn, .work job :: _ => [job]
  | _, _ => []

/-- What a piece of work asks of the outside, and when. -/
inductive Store.Asks (s : Store) : Work → Signal → Prop where
  | call {t : Nat} {l : ListenerId} {payload : Payload} (new : (s.seen.get? l).getD 0 < t) :
      Asks s (.call t l payload) (.call l payload)
  | fetch {request : Request} : Asks s (.launch request) (.fetch request)
  | timer {window deadline : Nat} : Asks s (.startTimer window deadline) (.timer window deadline)
  | bind {name : String} (free : name ∉ s.bound) : Asks s (.bind name) (.bind name)
  | unbind {name : String} (bound : name ∈ s.bound) : Asks s (.keepBinding name) (.unbind name)

/-- What of a store concerns events that have not been applied yet. -/
structure Reception where
  batch : Batch
  bound : List String

namespace Store

def reception (s : Store) : Reception := ⟨s.batch, s.bound⟩

variable {setup : Setup} {s : Store} {query : QueryId} {request : Request}
variable {answer : Except Failure (QueryData × Fields)}

/-! ## Errands -/

theorem not_isErrand_notify (touched : List QueryId) :
    ∀ job ∈ (s.notify touched).2, job.isErrand = false := by
  intro job hjob
  rcases List.mem_append.mp hjob with hjob | hjob
  · obtain ⟨x, -, hjob⟩ := List.mem_flatMap.mp hjob
    split at hjob
    · obtain ⟨l, -, rfl⟩ := List.mem_map.mp hjob
      rfl
    · cases hjob
  · obtain ⟨l, -, rfl⟩ := List.mem_map.mp hjob
    rfl

theorem not_isErrand_fetchNow : ∀ job ∈ (s.fetchNow query).2, job.isErrand = false := by
  unfold fetchNow
  split
  · rw [List.forall_mem_append]
    exact ⟨not_isErrand_notify _, List.forall_mem_singleton.mpr rfl⟩
  · exact List.forall_mem_nil _

theorem not_isErrand_subscribe : ∀ job ∈ (s.subscribe query).2.2, job.isErrand = false := by
  unfold subscribe
  dsimp only
  split
  · exact not_isErrand_fetchNow
  · exact List.forall_mem_nil _

theorem not_isErrand_unsubscribe (listener : ListenerId) (vacuum : Option Bool) :
    ∀ job ∈ (s.unsubscribe setup query listener vacuum).2, job.isErrand = false := by
  unfold unsubscribe
  dsimp only
  split
  · exact List.forall_mem_nil _
  split
  · exact List.forall_mem_nil _
  split
  · split
    · exact not_isErrand_notify _
    · exact List.forall_mem_nil _
  · exact List.forall_mem_nil _

theorem not_isErrand_refetch : ∀ job ∈ (s.refetch query).2, job.isErrand = false := by
  unfold refetch
  split
  · exact List.forall_mem_nil _
  split
  · exact List.forall_mem_nil _
  split
  · exact List.forall_mem_nil _
  · exact not_isErrand_fetchNow

theorem not_isErrand_complete :
    ∀ job ∈ (s.complete setup request answer).2, job.isErrand = false := by
  by_cases hcurrent : s.isCurrent request = true
  · rcases @complete_eq setup s request answer hcurrent with hnone | ⟨again, next, -, hsome⟩
    · rw [hnone]
      exact not_isErrand_notify _
    · rw [hsome, List.forall_mem_append]
      exact ⟨not_isErrand_notify _, List.forall_mem_singleton.mpr rfl⟩
  · rw [complete, if_neg hcurrent]
    exact List.forall_mem_nil _

theorem filter_isErrand_apply (name : String) (changes : List Change) :
    (s.apply setup name changes).2.filter Work.isErrand =
      (s.refetched setup name changes).map .refetch := by
  unfold apply refetched
  dsimp only
  split
  · rfl
  · rw [List.filter_append, List.filter_eq_nil_iff.mpr fun job hjob =>
      Bool.eq_false_iff.mp (not_isErrand_notify _ job hjob), List.nil_append]
    refine List.filter_eq_self.mpr fun job hjob => ?_
    obtain ⟨x, -, rfl⟩ := List.mem_map.mp hjob
    rfl

theorem isErrand_applyEvents (events : List Event) :
    ∀ job ∈ applyEvents events, job.isErrand = true := by
  intro job hjob
  obtain ⟨group, -, rfl⟩ := List.mem_map.mp hjob
  rfl

theorem asks_of_run {job : Work} {asked : Signal} (h : (s.run setup job).2.2 = some asked) :
    s.Asks job asked := by
  cases job with
  | call t l payload =>
    dsimp only [run] at h
    split at h
    · next hnew =>
      cases h
      exact .call hnew
    · cases h
  | launch request =>
    cases h
    exact .fetch
  | startTimer window deadline =>
    cases h
    exact .timer
  | refetch | apply => cases h
  | bind name =>
    dsimp only [run] at h
    split at h
    · cases h
    · next hfree =>
      cases h
      exact .bind hfree
  | keepBinding name =>
    dsimp only [run] at h
    split at h
    · next hbound =>
      cases h
      exact .unbind hbound
    · cases h

/-! ## The reception -/

theorem reception_modifyQuery (f : Query → Query) :
    (s.modifyQuery query f).reception = s.reception := by
  unfold modifyQuery
  split <;> rfl

theorem reception_of_beginFetch? {next : Store}
    (h : s.beginFetch? query = some (request, next)) : next.reception = s.reception := by
  obtain ⟨home, q, -, -, -, -, rfl⟩ := beginFetch?_eq_some h
  rfl

theorem reception_materialize (ref : QueryRef) :
    (s.materialize setup ref).1.reception = s.reception := by
  unfold materialize
  dsimp only
  split <;> rfl

theorem reception_fetchNow : (s.fetchNow query).1.reception = s.reception := by
  unfold fetchNow
  split
  · next request next h =>
    show next.reception = s.reception
    exact reception_of_beginFetch? h
  · rfl

theorem reception_subscribe : (s.subscribe query).2.1.reception = s.reception := by
  unfold subscribe
  dsimp only
  split
  · exact reception_fetchNow
  · rfl

theorem reception_unsubscribe (listener : ListenerId) (vacuum : Option Bool) :
    (s.unsubscribe setup query listener vacuum).1.reception = s.reception := by
  unfold unsubscribe
  dsimp only
  split
  · rfl
  split
  · rfl
  split
  · split <;> rfl
  · rfl

theorem reception_refetch : (s.refetch query).1.reception = s.reception := by
  unfold refetch
  split
  · rfl
  split
  · rfl
  split
  · exact reception_modifyQuery _
  · exact reception_fetchNow

theorem reception_complete : (s.complete setup request answer).1.reception = s.reception := by
  by_cases hcurrent : s.isCurrent request = true
  · have hlanded : (s.landed setup request answer).reception = s.reception :=
      reception_modifyQuery _
    rcases complete_eq hcurrent with hnone | ⟨again, next, hbegin, hsome⟩
    · rw [hnone]
      exact hlanded
    · rw [hsome]
      exact (reception_of_beginFetch? hbegin).trans hlanded
  · rw [complete, if_neg hcurrent]

theorem reception_apply (name : String) (changes : List Change) :
    (s.apply setup name changes).1.reception = s.reception := by
  unfold apply
  dsimp only
  split <;> rfl

end Store

namespace World

variable {setup : Setup} {w w' : World} {a : Act} {signal : Option Signal}

theorem filter_isErrand (a : Act) :
    (w.transition setup a).2.filter Work.isErrand = w.errands setup a := by
  have hnone : ∀ {work : List Work}, (∀ job ∈ work, job.isErrand = false) →
      work.filter Work.isErrand = [] := fun h =>
    List.filter_eq_nil_iff.mpr fun job hjob => Bool.eq_false_iff.mp (h job hjob)
  cases a with
  | materialize ref =>
    unfold transition errands Store.materialize
    dsimp only
    split <;> rfl
  | subscribe => exact hnone Store.not_isErrand_subscribe
  | unsubscribe query listener vacuum =>
    exact hnone (Store.not_isErrand_unsubscribe listener vacuum)
  | refetch => exact hnone Store.not_isErrand_refetch
  | emit event =>
    unfold transition errands Store.emit Batch.push
    dsimp only
    split
    · rfl
    · cases w.store.batch.scheduled <;> rfl
  | flush => exact List.filter_eq_self.mpr (Store.isErrand_applyEvents _)
  | timedOut window =>
    show (Store.applyEvents (w.store.batch.drainWindow window).1).filter Work.isErrand = _
    rw [List.filter_eq_self.mpr (Store.isErrand_applyEvents _), errands, Batch.drainWindow]
    split <;> rfl
  | answered query epoch answer =>
    unfold transition
    dsimp only
    split
    · exact hnone Store.not_isErrand_complete
    · rfl
  | goOn =>
    unfold transition errands
    cases hagenda : w.agenda with
    | nil => rfl
    | cons turn rest =>
      cases turn with
      | outside => rfl
      | work job =>
        cases job with
        | call t l payload =>
          dsimp only [Store.run]
          split <;> rfl
        | launch | startTimer => rfl
        | refetch => exact hnone Store.not_isErrand_refetch
        | apply name changes => exact Store.filter_isErrand_apply name changes
        | bind name =>
          dsimp only [Store.run]
          split <;> rfl
        | keepBinding name =>
          dsimp only [Store.run]
          split <;> rfl
  | watch | unwatch | mutated | tick | giveBack => rfl

theorem errand_of_mem {job : Work} (mem : job ∈ w.errands setup a) : w.Errand setup a job := by
  have hevents : ∀ {a : Act} (events : List Event), a ≠ .goOn →
      job ∈ Store.applyEvents events → w.Errand setup a job := by
    intro a events hgoOn hmem
    obtain ⟨group, -, rfl⟩ := List.mem_map.mp hmem
    exact .apply hgoOn
  cases a with
  | materialize ref =>
    unfold errands at mem
    dsimp only at mem
    split at mem
    · cases mem
    · next hfollows =>
      rw [List.mem_singleton.mp mem]
      exact .bind hfollows
  | emit event =>
    unfold errands at mem
    dsimp only at mem
    split at mem
    · rw [List.mem_singleton.mp mem]
      exact .apply nofun
    · next hbatches =>
      split at mem
      · cases mem
      · next hidle =>
        rw [List.mem_singleton.mp mem]
        exact .startTimer hbatches (Bool.eq_false_iff.mpr hidle)
  | flush => exact hevents _ nofun mem
  | timedOut window =>
    unfold errands at mem
    dsimp only at mem
    split at mem
    · exact hevents _ nofun mem
    · cases mem
  | mutated service change =>
    rw [List.mem_singleton.mp mem]
    exact .apply nofun
  | goOn =>
    unfold errands at mem
    dsimp only at mem
    split at mem
    · next hagenda =>
      obtain ⟨query, hwanted, rfl⟩ := List.mem_map.mp mem
      exact .refetch hagenda hwanted
    · next hagenda =>
      split at mem
      · cases mem
      · next hfree =>
        rw [List.mem_singleton.mp mem]
        exact .keepBinding hagenda hfree
    · cases mem
  | subscribe | unsubscribe | refetch | watch | unwatch | answered | tick | giveBack => cases mem

theorem flatMap_agenda {α : Type} {f : Turn → List α} (outside : f .outside = [])
    (silent : ∀ job : Work, job.isErrand = false → f (.work job) = [])
    (h : w.act? setup a = some (w', signal)) :
    w'.agenda.flatMap f =
      (w.errands setup a).flatMap (fun job => f (.work job)) ++ (w.rest a).flatMap f := by
  obtain ⟨-, -, given, hgiven, hagenda⟩ := transition_of_act h
  have hnone : given.flatMap f = [] :=
    List.flatMap_eq_nil_iff.mpr fun turn hturn => by rw [hgiven turn hturn, outside]
  have hfilter : ∀ work : List Work, work.flatMap (fun job => f (.work job)) =
      (work.filter Work.isErrand).flatMap fun job => f (.work job) := by
    intro work
    induction work with
    | nil => rfl
    | cons job work ih =>
      rw [List.flatMap_cons, ih]
      cases hjob : job.isErrand with
      | true => rw [List.filter_cons_of_pos hjob, List.flatMap_cons]
      | false =>
        rw [silent job hjob, List.nil_append, List.filter_cons_of_neg (Bool.eq_false_iff.mp hjob)]
  rw [hagenda, List.flatMap_append, List.flatMap_append, hnone, List.nil_append,
    List.flatMap_map, hfilter, filter_isErrand]

theorem done_cases (w : World) (a : Act) :
    (∃ job others, a = .goOn ∧ w.agenda = .work job :: others ∧ w.done a = [job]) ∨
      w.done a = [] ∧ ∀ job others, a = .goOn → w.agenda ≠ .work job :: others := by
  unfold done
  split
  · next job others hagenda => exact Or.inl ⟨job, others, rfl, hagenda, rfl⟩
  · next hother => exact Or.inr ⟨rfl, fun job others ha hagenda => hother job others ha hagenda⟩

theorem signal_of_idle (idle : ∀ job others, a = .goOn → w.agenda ≠ .work job :: others) :
    w.signal setup a = none := by
  unfold World.signal
  split
  · next hagenda => exact absurd hagenda (idle _ _ rfl)
  · rfl

theorem asks_of_act {asked : Signal} (h : w.act? setup a = some (w', some asked)) :
    ∃ job others, w.agenda = .work job :: others ∧ w.store.Asks job asked := by
  obtain ⟨-, hsignal, -⟩ := agenda_of_act h
  rcases done_cases w a with ⟨job, others, rfl, hagenda, -⟩ | ⟨-, hidle⟩
  · rw [signal_goOn hagenda] at hsignal
    exact ⟨job, others, hagenda, Store.asks_of_run hsignal.symm⟩
  · rw [signal_of_idle hidle] at hsignal
    cases hsignal

theorem flatMap_done_append_rest {α : Type} (f : Turn → List α) (outside : f .outside = [])
    (h : w.act? setup a = some (w', signal)) :
    (w.done a).flatMap (fun job => f (.work job)) ++ (w.rest a).flatMap f =
      w.agenda.flatMap f := by
  cases a with
  | goOn =>
    unfold done rest
    cases hagenda : w.agenda with
    | nil => rfl
    | cons turn others =>
      cases turn with
      | outside => rw [List.flatMap_cons, outside]; rfl
      | work job => rw [List.flatMap_singleton]; rfl
  | giveBack =>
    simp only [act?] at h
    split at h
    · next others hagenda =>
      rw [rest, hagenda, List.flatMap_cons, outside]
      rfl
    · cases h
  | materialize | subscribe | unsubscribe | refetch | watch | unwatch | emit | flush | mutated
  | answered | timedOut | tick => rfl

/-- The reception after an act. -/
def receptionAfter (setup : Setup) (w : World) : Act → Reception
  | .emit event =>
    if setup.batchInterval = 0 then w.store.reception
    else { w.store.reception with batch := (w.store.batch.push event).1 }
  | .flush => { w.store.reception with batch := w.store.batch.drain.2 }
  | .timedOut window => { w.store.reception with batch := (w.store.batch.drainWindow window).2 }
  | .goOn =>
    match w.agenda with
    | .work (.keepBinding name) :: _ =>
      if name ∈ w.store.bound then w.store.reception
      else { w.store.reception with bound := w.store.bound ++ [name] }
    | _ => w.store.reception
  | _ => w.store.reception

theorem reception_transition (a : Act) :
    (w.transition setup a).1.reception = w.receptionAfter setup a := by
  cases a with
  | materialize ref => exact Store.reception_materialize ref
  | subscribe => exact Store.reception_subscribe
  | unsubscribe query listener vacuum => exact Store.reception_unsubscribe listener vacuum
  | refetch => exact Store.reception_refetch
  | emit event =>
    unfold transition receptionAfter Store.emit
    dsimp only
    split <;> rfl
  | answered query epoch answer =>
    unfold transition
    dsimp only
    split
    · exact Store.reception_complete
    · rfl
  | goOn =>
    unfold transition receptionAfter
    cases hagenda : w.agenda with
    | nil => rfl
    | cons turn rest =>
      cases turn with
      | outside => rfl
      | work job =>
        cases job with
        | call t l payload =>
          dsimp only [Store.run]
          split <;> rfl
        | launch | startTimer => rfl
        | refetch => exact Store.reception_refetch
        | apply name changes => exact Store.reception_apply name changes
        | bind name =>
          dsimp only [Store.run]
          split <;> rfl
        | keepBinding name =>
          dsimp only [Store.run]
          split <;> rfl
  | watch | unwatch | flush | timedOut | mutated | tick | giveBack => rfl

theorem reception_of_act (h : w.act? setup a = some (w', signal)) :
    w'.store.reception = w.receptionAfter setup a := by
  rw [(transition_of_act h).1, reception_transition]

/-! ## Whose turn it is -/

theorem eq_goOn_of_work {job : Work} {rest : List Turn} (agenda : w.agenda = .work job :: rest)
    (h : w.act? setup a = some (w', signal)) : a = .goOn := by
  have hclosed : w.isOpen = false := by rw [isOpen, agenda]
  have hbusy : w.agenda.isEmpty = false := by rw [agenda]; rfl
  cases a with
  | goOn => rfl
  | materialize | subscribe | unsubscribe | refetch | watch | unwatch | emit | flush | mutated
  | tick =>
    simp [act?, hclosed, hbusy] at h
  | answered | timedOut =>
    simp only [act?, hbusy] at h
    split at h <;> simp at h
  | giveBack => simp [act?, agenda] at h

theorem mem_of_mem_rest {turn : Turn} (mem : turn ∈ w.rest a) : turn ∈ w.agenda := by
  cases a with
  | goOn | giveBack => exact List.mem_of_mem_tail mem
  | materialize | subscribe | unsubscribe | refetch | watch | unwatch | emit | flush | mutated
  | answered | timedOut | tick => exact mem

theorem mem_errands {job : Work} (planned : job ∈ (w.transition setup a).2)
    (errand : job.isErrand = true) : job ∈ w.errands setup a := by
  rw [← filter_isErrand]
  exact List.mem_filter.mpr ⟨planned, errand⟩

theorem isErrand_of_isPrompt {job : Work} (prompt : job.isPrompt = true) : job.isErrand = true := by
  cases job with
  | startTimer | bind => rfl
  | call | launch | refetch | apply | keepBinding => cases prompt

theorem transition_of_prompt {job : Work} (planned : job ∈ (w.transition setup a).2)
    (prompt : job.isPrompt = true) : (w.transition setup a).2 = [job] ∧ a ≠ .goOn := by
  cases errand_of_mem (mem_errands planned (isErrand_of_isPrompt prompt)) with
  | startTimer batches idle =>
    refine ⟨?_, nofun⟩
    unfold transition Store.emit Batch.push
    dsimp only
    rw [if_neg batches, idle]
    rfl
  | @bind ref follows =>
    refine ⟨?_, nofun⟩
    show (if ref.config.realtime = .disabled then [] else _) = _
    rw [if_neg follows]
  | apply | keepBinding | refetch => cases prompt

theorem not_prompt_rest (h : w.act? setup a = some (w', signal))
    (before : ∀ turn ∈ w.agenda.tail, turn.isPrompt = false) :
    ∀ turn ∈ w.rest a, turn.isPrompt = false := by
  intro turn hturn
  have hmem := mem_of_mem_rest hturn
  cases hagenda : w.agenda with
  | nil =>
    rw [hagenda] at hmem
    cases hmem
  | cons first others =>
    rw [hagenda, List.tail_cons] at before
    cases first with
    | outside =>
      rw [hagenda] at hmem
      rcases List.mem_cons.mp hmem with rfl | hmem
      · rfl
      · exact before turn hmem
    | work job =>
      rw [eq_goOn_of_work hagenda h, rest, hagenda] at hturn
      exact before turn hturn

/-- What is on the agenda after an act has been planned in it, or was left by it. -/
theorem planned_or_rest (h : w.act? setup a = some (w', signal)) {job : Work}
    (mem : .work job ∈ w'.agenda) : job ∈ (w.transition setup a).2 ∨ .work job ∈ w.rest a := by
  obtain ⟨-, -, given, hgiven, hagenda⟩ := transition_of_act h
  rw [hagenda] at mem
  rcases List.mem_append.mp mem with hnew | hold
  · rcases List.mem_append.mp hnew with hturn | hplanned
    · cases hgiven _ hturn
    · obtain ⟨planned, hplanned, heq⟩ := List.mem_map.mp hplanned
      cases heq
      exact Or.inl hplanned
  · exact Or.inr hold

theorem prompt_of_act (h : w.act? setup a = some (w', signal))
    (before : ∀ turn ∈ w.agenda.tail, turn.isPrompt = false) :
    ∀ turn ∈ w'.agenda.tail, turn.isPrompt = false := by
  have hrest := not_prompt_rest h before
  by_cases hprompt : ∃ job ∈ (w.transition setup a).2, job.isPrompt = true
  · obtain ⟨job, hjob, hprompt⟩ := hprompt
    obtain ⟨halone, hgoOn⟩ := transition_of_prompt hjob hprompt
    obtain ⟨-, hsignal, hagenda⟩ := agenda_of_act h
    rw [hagenda, hsignal, signal_eq_none hgoOn, halone]
    exact hrest
  · intro turn hturn
    cases turn with
    | outside => rfl
    | work job =>
      rcases planned_or_rest h (List.mem_of_mem_tail hturn) with hplanned | hold
      · exact Bool.eq_false_iff.mpr fun h => hprompt ⟨job, hplanned, h⟩
      · exact hrest _ hold

theorem errand_of_prompt (h : w.act? setup a = some (w', signal))
    (before : ∀ turn ∈ w.agenda.tail, turn.isPrompt = false) {job : Work}
    (mem : .work job ∈ w'.agenda) (prompt : job.isPrompt = true) : job ∈ w.errands setup a := by
  rcases planned_or_rest h mem with hplanned | hold
  · exact mem_errands hplanned (isErrand_of_isPrompt prompt)
  · have hnot := not_prompt_rest h before _ hold
    exact absurd (hnot.symm.trans prompt) Bool.false_ne_true

end World

variable {setup : Setup} {history : List Happening} {w : World}

/-- Prompt errands are never behind other work. -/
theorem Run.prompt (run : Run setup history w) : ∀ turn ∈ w.agenda.tail, turn.isPrompt = false := by
  induction run with
  | start => exact List.forall_mem_nil _
  | act _ hact ih => exact World.prompt_of_act hact ih

theorem Run.not_prompt_of_isOpen (run : Run setup history w) (isOpen : w.isOpen = true) :
    ∀ turn ∈ w.agenda, turn.isPrompt = false := by
  have htail := run.prompt
  cases hagenda : w.agenda with
  | nil => exact List.forall_mem_nil _
  | cons first others =>
    rw [hagenda, List.tail_cons] at htail
    intro turn hturn
    rcases List.mem_cons.mp hturn with rfl | hturn
    · cases turn with
      | outside => rfl
      | work job => rw [World.isOpen, hagenda] at isOpen; cases isOpen
    · exact htail turn hturn

end LiveQuery
