import LiveQuery.Proofs.Store.Agenda
import LiveQuery.Proofs.Store.Histories

/-!
# Bindings

When a query that follows events is materialized and its service is not bound yet, the backend is
asked to deliver the events of the service, and then the binding is kept. Each binding that was
asked for is still to be kept, is kept, or has been given up (`Run.bindings_account`).

While the backend is being asked it has control, and the service does not count as bound. A query
that is materialized then makes it asked again, and one of the two bindings is given up
(`Happening.Intrudes`). Otherwise a service is bound once, with the first query that follows its
events (`Run.bound_once`).
-/

namespace LiveQuery

/-- Is a query materialized that follows the events of a service? -/
def Act.follows (name : String) : Act → Bool
  | .materialize ref => ref.config.realtime ≠ .disabled && ref.descriptor.service = name
  | _ => false

def Happening.follows (h : Happening) (name : String) : Bool := h.act.follows name

def Signal.binds (name : String) : Signal → Bool
  | .bind service => service = name
  | .call _ _ | .fetch _ | .timer _ _ | .unbind _ => false

def Signal.unbinds (name : String) : Signal → Bool
  | .unbind service => service = name
  | .call _ _ | .fetch _ | .timer _ _ | .bind _ => false

/-- Is the backend asked to deliver the events of a service? -/
def Happening.binds (h : Happening) (name : String) : Bool := h.signal.any (·.binds name)

/-- Is a binding of a service given up? -/
def Happening.unbinds (h : Happening) (name : String) : Bool := h.signal.any (·.unbinds name)

/-- The service whose binding is kept by a piece of work. -/
def Work.keeps : Work → List String
  | .keepBinding name => [name]
  | .call _ _ _ | .launch _ | .startTimer _ _ | .refetch _ | .apply _ _ | .bind _ => []

def Turn.keeps : Turn → List String
  | .work job => job.keeps
  | .outside => []

/-- The services whose bindings are to be kept. -/
def World.keeping (w : World) : List String := w.agenda.flatMap Turn.keeps

/-- How many bindings of a service are kept or yet to be kept. -/
def World.bindings (w : World) (name : String) : Nat :=
  w.keeping.count name + w.store.bound.count name

/-- A query that follows the events of a service is materialized while the backend is being asked to
deliver them. -/
def Happening.Intrudes (h : Happening) (name : String) : Prop :=
  h.follows name = true ∧ name ∈ h.before.keeping

variable {setup : Setup} {history : List Happening} {w : World} {h last : Happening}
variable {name : String}

namespace World

variable {w' : World} {a : Act} {signal : Option Signal}

theorem keeps_of_not_isErrand (job : Work) (h : job.isErrand = false) :
    (Turn.work job).keeps = [] := by
  cases job with
  | call | launch => rfl
  | startTimer | refetch | apply | bind | keepBinding => cases h

theorem keeping_of_act (h : w.act? setup a = some (w', signal)) : w'.keeping =
    (w.errands setup a).flatMap Work.keeps ++ (w.rest a).flatMap Turn.keeps :=
  flatMap_agenda rfl keeps_of_not_isErrand h

theorem keeping_eq (h : w.act? setup a = some (w', signal)) :
    w.keeping = (w.done a).flatMap Work.keeps ++ (w.rest a).flatMap Turn.keeps :=
  (flatMap_done_append_rest Turn.keeps rfl h).symm

theorem bindings_of_idle (setup : Setup)
    (idle : ∀ job others, a = .goOn → w.agenda ≠ .work job :: others) :
    (w.errands setup a).flatMap Work.keeps = [] ∧
      (w.receptionAfter setup a).bound = w.store.bound := by
  constructor
  · refine List.flatMap_eq_nil_iff.mpr fun job hjob => ?_
    cases errand_of_mem hjob with
    | keepBinding agenda free => exact absurd agenda (idle _ _ rfl)
    | apply | startTimer | bind | refetch => rfl
  · unfold receptionAfter
    split
    · split <;> rfl
    · rfl
    · rfl
    · split
      · next hagenda => exact absurd hagenda (idle _ _ rfl)
      · rfl
    · rfl

theorem bindings_of_work (setup : Setup) {job : Work} {others : List Turn}
    (agenda : w.agenda = .work job :: others) (name : String) :
    ((w.store.run setup job).2.2.any (·.binds name)).toNat +
        (job.keeps.count name + w.store.bound.count name) =
      ((w.store.run setup job).2.2.any (·.unbinds name)).toNat +
        (((w.errands setup .goOn).flatMap Work.keeps).count name +
          (w.receptionAfter setup .goOn).bound.count name) := by
  have hcount : ∀ service : String, [service].count name = (decide (service = name)).toNat := by
    intro service
    rw [List.count_singleton]
    by_cases hname : service = name <;> simp [hname]
  unfold errands receptionAfter
  rw [agenda]
  cases job with
  | call t l payload =>
    dsimp only [Store.run]
    split <;> rfl
  | launch | startTimer | refetch => rfl
  | apply service changes =>
    have hnone : ((w.store.refetched setup service changes).map Work.refetch).flatMap
        Work.keeps = [] := by
      refine List.flatMap_eq_nil_iff.mpr fun job hjob => ?_
      obtain ⟨x, -, rfl⟩ := List.mem_map.mp hjob
      rfl
    dsimp only
    rw [hnone]
    rfl
  | bind service =>
    dsimp only [Store.run]
    split
    · rfl
    · show (decide (service = name)).toNat + (0 + w.store.bound.count name) =
        0 + ([service].count name + w.store.bound.count name)
      rw [hcount service]
      omega
  | keepBinding service =>
    dsimp only [Store.run]
    split
    · show 0 + ([service].count name + w.store.bound.count name) =
        (decide (service = name)).toNat + (0 + w.store.bound.count name)
      rw [hcount service]
      omega
    · show 0 + ([service].count name + w.store.bound.count name) =
        0 + (0 + (w.store.bound ++ [service]).count name)
      rw [List.count_append]
      omega

theorem bound_of_act (h : w.act? setup a = some (w', signal)) :
    w'.store.bound = (w.receptionAfter setup a).bound :=
  congrArg Reception.bound (reception_of_act h)

/-- A binding that is asked for is kept or yet to be kept until it is given up. -/
theorem bindings_of_act (h : w.act? setup a = some (w', signal)) (name : String) :
    (signal.any (·.binds name)).toNat + w.bindings name =
      (signal.any (·.unbinds name)).toNat + w'.bindings name := by
  obtain ⟨-, hsignal, -⟩ := agenda_of_act h
  rw [bindings, bindings, hsignal, keeping_of_act h, keeping_eq h, bound_of_act h,
    List.count_append, List.count_append]
  rcases done_cases w a with ⟨job, others, rfl, hagenda, hdone⟩ | ⟨hdone, hidle⟩
  · have hwork := bindings_of_work setup hagenda name
    rw [signal_goOn hagenda, hdone, List.flatMap_singleton]
    omega
  · obtain ⟨herrands, hbound⟩ := bindings_of_idle setup hidle
    rw [signal_of_idle hidle, hdone, herrands, hbound]
    rfl

theorem of_binds (h : w.act? setup a = some (w', signal))
    (binds : signal.any (·.binds name) = true) :
    (∃ others, w.agenda = .work (.bind name) :: others) ∧ name ∉ w.store.bound := by
  obtain ⟨asked, rfl, hbinds⟩ := (Option.any_eq_true _ _).mp binds
  obtain ⟨job, others, hagenda, hasks⟩ := asks_of_act h
  cases hasks with
  | @bind service free =>
    obtain rfl : service = name := of_decide_eq_true hbinds
    exact ⟨⟨others, hagenda⟩, free⟩
  | call | fetch | timer | unbind => cases hbinds

theorem of_unbinds (h : w.act? setup a = some (w', signal))
    (unbinds : signal.any (·.unbinds name) = true) : 2 ≤ w.bindings name := by
  obtain ⟨asked, rfl, hunbinds⟩ := (Option.any_eq_true _ _).mp unbinds
  obtain ⟨job, others, hagenda, hasks⟩ := asks_of_act h
  cases hasks with
  | @unbind service bound =>
    obtain rfl : service = name := of_decide_eq_true hunbinds
    have hkeeping : service ∈ w.keeping := by
      rw [keeping, hagenda]
      exact List.mem_append_left _ List.mem_cons_self
    exact Nat.add_le_add (List.count_pos_iff.mpr hkeeping) (List.count_pos_iff.mpr bound)
  | call | fetch | timer | bind => cases hunbinds

theorem bindings_pos_of_act (h : w.act? setup a = some (w', signal))
    (holds : signal.any (·.binds name) = true ∨ 0 < w.bindings name) : 0 < w'.bindings name := by
  have hstep := bindings_of_act h name
  have hheld : 0 < (signal.any (·.binds name)).toNat + w.bindings name := by
    rcases holds with hbinds | hpos
    · rw [hbinds]
      exact Nat.lt_add_right _ Nat.one_pos
    · exact Nat.add_pos_right _ hpos
  cases hunbinds : signal.any (·.unbinds name) with
  | true =>
    have htwo := of_unbinds h hunbinds
    rw [hunbinds, Bool.toNat_true] at hstep
    omega
  | false =>
    rw [hunbinds, Bool.toNat_false, Nat.zero_add] at hstep
    omega

theorem follows_of_errand (planned : .bind name ∈ w.errands setup a) : a.follows name = true := by
  cases errand_of_mem planned with
  | bind follows => simp [Act.follows, follows]

theorem of_follows (h : w.act? setup a = some (w', signal)) (follows : a.follows name = true) :
    signal = none ∧ w'.agenda = .work (.bind name) :: w.agenda ∧
      w'.store.bound = w.store.bound ∧ w.isOpen = true := by
  cases a with
  | materialize ref =>
    obtain ⟨hrealtime, hname⟩ := (Bool.and_eq_true _ _).mp follows
    obtain ⟨hopen, hnext⟩ := Option.ite_none_right_eq_some.mp h
    cases hnext
    obtain rfl : ref.descriptor.service = name := of_decide_eq_true hname
    have hplanned : (w.store.materialize setup ref).2 = [.bind ref.descriptor.service] :=
      if_neg (of_decide_eq_true hrealtime)
    refine ⟨rfl, ?_, bound_of_act h, hopen⟩
    show (w.store.materialize setup ref).2.map Turn.work ++ w.agenda = _
    rw [hplanned]
    rfl
  | subscribe | unsubscribe | refetch | watch | unwatch | emit | flush | mutated | answered
  | timedOut | tick | goOn | giveBack => cases follows

end World

/-- Each binding that was asked for is kept, or yet to be kept, or has been given up. -/
theorem Run.bindings_account (run : Run setup history w) (name : String) :
    history.countP (·.binds name) = history.countP (·.unbinds name) + w.bindings name := by
  have hnat : ∀ b : Bool, (if b = true then 1 else 0) = b.toNat := by decide
  induction run with
  | start => rfl
  | @act history before after a signal _ hact ih =>
    have hstep := World.bindings_of_act hact name
    rw [List.countP_append, List.countP_append, List.countP_singleton, List.countP_singleton, hnat,
      hnat, ih]
    show _ + (signal.any (·.binds name)).toNat = _ + (signal.any (·.unbinds name)).toNat + _
    omega

theorem Run.exists_follows (run : Run setup history w) (binds : .work (.bind name) ∈ w.agenda) :
    ∃ earlier m, history = earlier ++ [m] ∧ m.follows name = true := by
  cases run with
  | start => cases binds
  | act hrun hact =>
    exact ⟨_, _, rfl, World.follows_of_errand (World.errand_of_prompt hact hrun.prompt binds rfl)⟩

theorem Run.agenda_of_bind (run : Run setup history w) (binds : .work (.bind name) ∈ w.agenda) :
    ∃ others, w.agenda = .work (.bind name) :: others := by
  have hprompt := run.prompt
  cases hagenda : w.agenda with
  | nil =>
    rw [hagenda] at binds
    cases binds
  | cons first others =>
    rw [hagenda] at binds hprompt
    rcases List.mem_cons.mp binds with rfl | hmem
    · exact ⟨others, rfl⟩
    · cases hprompt _ hmem

theorem Run.bound_or_owed (run : Run setup history w)
    (followed : ∃ h ∈ history, h.follows name = true) :
    .work (.bind name) ∈ w.agenda ∨ 0 < w.bindings name := by
  induction history using List.reverseRecOn generalizing w with
  | nil =>
    obtain ⟨h, hmem, -⟩ := followed
    cases hmem
  | append_singleton history last ih =>
    obtain ⟨hrun, hoccurs, rfl⟩ := run.concat
    by_cases hlast : last.follows name = true
    · obtain ⟨-, hagenda, -⟩ := World.of_follows hoccurs.act hlast
      exact Or.inl (hagenda ▸ List.mem_cons_self)
    · have hearlier : ∃ h ∈ history, h.follows name = true := by
        obtain ⟨h, hmem, hfollows⟩ := followed
        rcases List.mem_append.mp hmem with hmem | hmem
        · exact ⟨h, hmem, hfollows⟩
        · exact absurd (List.mem_singleton.mp hmem ▸ hfollows) hlast
      refine Or.inr (World.bindings_pos_of_act hoccurs.act ?_)
      rcases ih hrun hearlier with hbinds | hpos
      · obtain ⟨others, hagenda⟩ := hrun.agenda_of_bind hbinds
        obtain ⟨-, hsignal, -⟩ := World.agenda_of_act hoccurs.act
        rw [World.eq_goOn_of_work hagenda hoccurs.act, World.signal_goOn hagenda] at hsignal
        by_cases hbound : name ∈ last.before.store.bound
        · exact Or.inr (Nat.add_pos_right _ (List.count_pos_iff.mpr hbound))
        · rw [hsignal, Store.run, if_neg hbound]
          exact Or.inl (decide_eq_true rfl)
      · exact Or.inr hpos

/-- Unless a query is materialized while its service is being bound, there is one binding of a
service at most, and none is given up. -/
theorem Run.one_binding (run : Run setup history w) (orderly : ∀ h ∈ history, ¬h.Intrudes name) :
    w.bindings name ≤ 1 ∧ (.work (.bind name) ∈ w.agenda → name ∉ w.keeping) ∧
      ∀ h ∈ history, h.unbinds name = false := by
  induction history using List.reverseRecOn generalizing w with
  | nil =>
    rw [run_nil.mp run]
    have hnone : ({} : World).bindings name = 0 := rfl
    refine ⟨hnone ▸ Nat.zero_le 1, fun hmem => ?_, List.forall_mem_nil _⟩
    cases hmem
  | append_singleton history last ih =>
    have hall := run
    obtain ⟨hrun, hoccurs, rfl⟩ := run.concat
    obtain ⟨hmost, hfree, hkept⟩ := ih hrun fun h hmem => orderly h (List.mem_append_left _ hmem)
    have hstep := World.bindings_of_act hoccurs.act name
    have hunbinds : last.unbinds name = false := by
      refine Bool.eq_false_iff.mpr fun hunbinds => ?_
      have htwo := World.of_unbinds hoccurs.act hunbinds
      omega
    refine ⟨?_, ?_, ?_⟩
    · rw [show last.signal.any (·.unbinds name) = false from hunbinds] at hstep
      cases hbinds : last.signal.any (·.binds name) with
      | true =>
        obtain ⟨⟨others, hagenda⟩, hbound⟩ := World.of_binds hoccurs.act hbinds
        have hkeeping := hfree (hagenda ▸ List.mem_cons_self)
        have hnone : last.before.bindings name = 0 := by
          rw [World.bindings, List.count_eq_zero.mpr hkeeping, List.count_eq_zero.mpr hbound]
        rw [hbinds, hnone] at hstep
        exact Nat.le_of_eq (by simpa using hstep.symm)
      | false =>
        rw [hbinds] at hstep
        omega
    · intro hbinds
      obtain ⟨earlier, m, heq, hfollows⟩ := hall.exists_follows hbinds
      obtain ⟨-, hlast⟩ := List.append_inj' heq rfl
      cases hlast
      have hkeeping : name ∉ last.before.keeping :=
        fun hmem => orderly last List.mem_concat_self ⟨hfollows, hmem⟩
      obtain ⟨-, hagenda, -⟩ := World.of_follows hoccurs.act hfollows
      rw [World.keeping, hagenda]
      exact hkeeping
    · intro h hmem
      rcases List.mem_append.mp hmem with hmem | hmem
      · exact hkept h hmem
      · exact List.mem_singleton.mp hmem ▸ hunbinds

/-- A service is bound right after a query that follows its events has been materialized, and none
before, unless one is materialized while the service is being bound. -/
theorem Run.follows_of_binds (run : Run setup (history ++ [h]) w)
    (orderly : ∀ x ∈ history, ¬x.Intrudes name) (binds : h.binds name = true) :
    ∃ earlier m, history = earlier ++ [m] ∧ m.follows name = true ∧
      ∀ x ∈ earlier, x.follows name = false := by
  obtain ⟨hrun, hoccurs, -⟩ := run.concat
  obtain ⟨⟨others, hagenda⟩, hfree⟩ := World.of_binds hoccurs.act binds
  obtain ⟨earlier, m, rfl, hfollows⟩ := hrun.exists_follows (hagenda ▸ List.mem_cons_self)
  refine ⟨earlier, m, rfl, hfollows, fun x hx => Bool.eq_false_iff.mpr fun hearlier => ?_⟩
  obtain ⟨hbefore, hm, hafter⟩ := hrun.concat
  obtain ⟨-, -, hbound, hopen⟩ := World.of_follows hm.act hfollows
  rcases hbefore.bound_or_owed ⟨x, hx, hearlier⟩ with hbinds | hpos
  · have hprompt := hbefore.not_prompt_of_isOpen hopen _ hbinds
    cases hprompt
  · have hkeeping : name ∉ m.before.keeping :=
      fun hmem => orderly m List.mem_concat_self ⟨hfollows, hmem⟩
    rw [World.bindings, List.count_eq_zero.mpr hkeeping, Nat.zero_add, ← hbound, ← hafter] at hpos
    exact hfree (List.count_pos_iff.mp hpos)

theorem Run.exists_follows_of_binds (run : Run setup history w)
    (binds : ∃ h ∈ history, h.binds name = true) : ∃ m ∈ history, m.follows name = true := by
  obtain ⟨h, hmem, hbinds⟩ := binds
  obtain ⟨earlier, later, rfl⟩ := List.append_of_mem hmem
  obtain ⟨hrun, hoccurs, -⟩ := run.until.concat
  obtain ⟨⟨others, hagenda⟩, -⟩ := World.of_binds hoccurs.act hbinds
  obtain ⟨before, m, rfl, hfollows⟩ := hrun.exists_follows (hagenda ▸ List.mem_cons_self)
  exact ⟨m, List.mem_append_left _ List.mem_concat_self, hfollows⟩

theorem Run.binds_of_follows (run : Run setup (history ++ [h]) w) (follows : h.follows name = true)
    (first : ∀ x ∈ history, x.follows name = false) :
    (∃ next, w.act? setup .goOn = some (next, some (.bind name))) ∧
      ∀ a w' signal, w.act? setup a = some (w', signal) → signal = some (.bind name) := by
  have haccount := run.bindings_account name
  obtain ⟨hrun, hoccurs, rfl⟩ := run.concat
  obtain ⟨hsilent, hagenda, -⟩ := World.of_follows hoccurs.act follows
  have hnever : (history ++ [h]).countP (·.binds name) = 0 := by
    refine List.countP_eq_zero.mpr fun x hx hbinds => ?_
    rcases List.mem_append.mp hx with hx | hx
    · obtain ⟨m, hm, hfollows⟩ := hrun.exists_follows_of_binds ⟨x, hx, hbinds⟩
      rw [first m hm] at hfollows
      cases hfollows
    · rw [List.mem_singleton.mp hx, Happening.binds, hsilent] at hbinds
      cases hbinds
  have hfree : name ∉ h.after.store.bound := by
    intro hbound
    have hpos : 0 < h.after.store.bound.count name := List.count_pos_iff.mpr hbound
    rw [hnever, World.bindings] at haccount
    omega
  have hsignal : h.after.signal setup .goOn = some (.bind name) := by
    rw [World.signal_goOn hagenda, Store.run, if_neg hfree]
  constructor
  · have hnext : ∃ next signal, h.after.act? setup .goOn = some (next, signal) := by
      simp only [World.act?, hagenda]
      exact ⟨_, _, rfl⟩
    obtain ⟨next, signal, hact⟩ := hnext
    obtain ⟨-, rfl, -⟩ := World.agenda_of_act hact
    exact ⟨next, hsignal ▸ hact⟩
  · intro a w' signal hact
    obtain ⟨-, rfl, -⟩ := World.agenda_of_act hact
    rw [World.eq_goOn_of_work hagenda hact]
    exact hsignal

/-- Unless a query is materialized while its service is being bound, the backend is asked for the
events of a service once at most, which is right after the first query that follows them has been
materialized, and no binding is given up. -/
theorem Run.bound_once (run : Run setup history w) (orderly : ∀ h ∈ history, ¬h.Intrudes name) :
    history.countP (·.binds name) ≤ 1 ∧ (∀ h ∈ history, h.unbinds name = false) ∧
      (∀ earlier h later, history = earlier ++ h :: later → h.binds name = true →
        ∃ before m, earlier = before ++ [m] ∧ m.follows name = true ∧
          ∀ x ∈ before, x.follows name = false) ∧
      ∀ earlier m later, history = earlier ++ m :: later → m.follows name = true →
        (∀ x ∈ earlier, x.follows name = false) →
          (∃ next, m.after.act? setup .goOn = some (next, some (.bind name))) ∧
            ∀ h ∈ later.head?, h.binds name = true := by
  obtain ⟨hmost, -, hkept⟩ := run.one_binding orderly
  refine ⟨?_, hkept, ?_, ?_⟩
  · have hnone : history.countP (·.unbinds name) = 0 :=
      List.countP_eq_zero.mpr fun h hmem => Bool.eq_false_iff.mp (hkept h hmem)
    rw [run.bindings_account name, hnone, Nat.zero_add]
    exact hmost
  · rintro earlier h later rfl hbinds
    exact run.until.follows_of_binds (fun x hx => orderly x (List.mem_append_left _ hx)) hbinds
  · rintro earlier m later rfl hfollows hfirst
    obtain ⟨hnext, honly⟩ := run.until.binds_of_follows hfollows hfirst
    refine ⟨hnext, fun h hh => ?_⟩
    obtain ⟨rest, rfl⟩ : ∃ rest, later = h :: rest := by
      cases later with
      | nil => cases hh
      | cons x rest =>
        cases hh
        exact ⟨rest, rfl⟩
    rw [List.append_cons] at run
    obtain ⟨hrun, hoccurs, -⟩ := run.until.concat
    obtain ⟨-, -, hbefore⟩ := hrun.concat
    have hact := hoccurs.act
    rw [hbefore] at hact
    rw [Happening.binds, honly _ _ _ hact]
    exact decide_eq_true rfl

namespace Notes

def everything : QueryRef where
  descriptor := ⟨"notes", .find, none, none⟩
  config := {}
  id := ⟨"q/a6dea3a948874eef"⟩
  id_eq := by decide +kernel

/-- A listener of the store wants the ideas when it is told of the first note. -/
def widening : List Act :=
  [.watch, .materialize everything, .goOn, .giveBack, .goOn,
    .emit ⟨"notes", .created, note 1 100 "idea"⟩, .goOn, .goOn, .materialize ideas, .goOn,
    .giveBack]

def intruding : List Act :=
  [.watch, .materialize everything, .goOn, .emit ⟨"notes", .created, note 1 100 "idea"⟩, .goOn,
    .goOn, .materialize ideas, .goOn, .giveBack, .goOn, .giveBack, .giveBack, .goOn]

/-- Both queries follow the events of notes by the same binding. -/
theorem notes_bound_once :
    ∃ history w, Run { batchInterval := 0 } history w ∧ w.agenda = [] ∧
      history.countP (·.follows "notes") = 2 ∧ history.countP (·.binds "notes") ≤ 1 ∧
      (∀ h ∈ history, h.unbinds "notes" = false) ∧ "notes" ∈ w.store.bound := by
  have hrun : Run { batchInterval := 0 } (World.played { batchInterval := 0 } {} widening)
      (World.play { batchInterval := 0 } {} widening) := Run.start.play widening
  have hfree : (World.played { batchInterval := 0 } {} widening).all (fun h =>
      !(h.follows "notes" && h.before.keeping.contains "notes")) = true := by decide +kernel
  have horderly : ∀ h ∈ World.played { batchInterval := 0 } {} widening,
      ¬h.Intrudes "notes" := by
    rintro h hmem ⟨hfollows, hkeeping⟩
    have hnot := List.all_eq_true.mp hfree h hmem
    rw [hfollows, List.contains_iff_mem.mpr hkeeping] at hnot
    cases hnot
  obtain ⟨honce, hkept, -⟩ := Run.bound_once hrun horderly
  exact ⟨_, _, hrun, List.isEmpty_iff.mp (by decide +kernel), by decide +kernel, honce, hkept,
    by decide +kernel⟩

/-- The backend is asked twice, and one of the bindings is given up. -/
theorem notes_bound_twice :
    ∃ history w, Run { batchInterval := 0 } history w ∧ w.agenda = [] ∧
      history.countP (·.binds "notes") = 2 ∧ history.countP (·.unbinds "notes") = 1 := by
  have hrun : Run { batchInterval := 0 } (World.played { batchInterval := 0 } {} intruding)
      (World.play { batchInterval := 0 } {} intruding) := Run.start.play intruding
  exact ⟨_, _, hrun, List.isEmpty_iff.mp (by decide +kernel), by decide +kernel,
    by decide +kernel⟩

end Notes

end LiveQuery
