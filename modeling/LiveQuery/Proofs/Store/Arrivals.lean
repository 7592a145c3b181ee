import LiveQuery.Proofs.Store.Batches

/-!
# The order of arrival

Events of a service are applied in the order in which they have arrived, unless a listener that is
called between two services of a batch has the next batch applied: what waits on the agenda is then
overtaken (`Happening.Overtakes`, `Notes.tag_goes_first`). As long as that does not happen to a
service, what has been applied to it, what is to be applied and what waits in the queue are, in
this order, what has arrived for it (`Run.in_order`).
-/

namespace LiveQuery

/-- The queue is flushed while earlier changes of the same service are still to be applied. -/
def Happening.Overtakes (h : Happening) (name : String) : Prop :=
  h.act = .flush ∧ h.before.waitingOn name ≠ [] ∧ h.before.store.batch.queuedOn name ≠ []

variable {setup : Setup} {history : List Happening} {w : World} {name : String}

/-- What has arrived for a service is applied, is to be applied and waits, in this order. -/
theorem Run.in_order (run : Run setup history w) (batches : setup.batchInterval ≠ 0)
    (orderly : ∀ h ∈ history, ¬h.Overtakes name) : emittedOn name history =
      handedOn name history ++
        (w.pendingOn (owesResult history) name ++ w.store.batch.queuedOn name) := by
  induction history using List.reverseRecOn generalizing w with
  | nil =>
    rw [run_nil.mp run]
    rfl
  | append_singleton history last ih =>
    obtain ⟨hrun, hoccurs, rfl⟩ := run.concat
    have hbefore := ih hrun fun h hmem => orderly h (List.mem_append_left _ hmem)
    rw [emittedOn_concat, handedOn_concat, owesResult_concat, hbefore]
    cases hoccurs.flow name hrun.first_of_owesResult with
    | queued pending queue =>
      rw [← pending, queue]
      simp only [List.append_assoc]
    | drained closes unapplied silent pending queue =>
      have hfirst : last.before.waitingOn name = [] ∨
          last.before.store.batch.queuedOn name = [] := by
        rcases closes with hflush | hrests
        · by_contra hboth
          obtain ⟨hwaits, hqueue⟩ := not_or.mp hboth
          exact orderly last List.mem_concat_self ⟨hflush, hwaits, hqueue⟩
        · exact Or.inl (World.waitingOn_of_rests hrests)
      rw [unapplied, ite_self, silent, pending, queue]
      simp only [List.append_nil]
      rcases hfirst with hfirst | hfirst
      · rw [World.pendingOn_eq_nil hfirst, List.nil_append, List.append_nil]
      · rw [hfirst, List.nil_append, List.append_nil]
    | atOnce now => exact absurd now batches

/-- Unless changes that are to be applied are overtaken, the changes of a service are applied in the
order in which they have arrived; when nothing is left to do, only those in the queue are left. -/
theorem Run.applied_in_order (run : Run setup history w) (batches : setup.batchInterval ≠ 0)
    (orderly : ∀ h ∈ history, ¬h.Overtakes name) :
    handedOn name history <+: emittedOn name history ∧
      (w.agenda = [] →
        emittedOn name history = handedOn name history ++ w.store.batch.queuedOn name) := by
  have horder := run.in_order batches orderly
  constructor
  · exact ⟨_, horder.symm⟩
  · intro hrests
    rwa [World.pendingOn_eq_nil (World.waitingOn_of_rests hrests), List.nil_append] at horder

namespace Notes

def tags : QueryRef where
  descriptor := ⟨"tags", .find, none, none⟩
  config := {}
  id := ⟨"q/fe98acc5b666ee41"⟩
  id_eq := by decide +kernel

/-- Somebody listens to the store, which delivers the events of notes and of tags; a note is added,
and then a tag. -/
def tagging : List Act :=
  [.watch, .materialize ideas, .goOn, .giveBack, .goOn, .materialize tags, .goOn, .giveBack, .goOn,
    .emit ⟨"notes", .created, note 1 100 "idea"⟩, .goOn,
    .emit ⟨"tags", .created, note 1 100 "first"⟩]

def untagging : List Act :=
  [.flush, .goOn, .goOn, .giveBack, .goOn, .goOn,
    .emit ⟨"tags", .removed, note 1 100 "first"⟩, .goOn, .flush, .goOn, .goOn, .giveBack, .giveBack]

/-- The listener removes the tag when it is told of the note, and has that shown at once. -/
def overtaking : List Act :=
  [.flush, .goOn, .goOn, .emit ⟨"tags", .removed, note 1 100 "first"⟩, .goOn, .flush, .goOn, .goOn,
    .giveBack, .giveBack, .goOn, .goOn, .giveBack]

/-- The tag comes and goes. -/
theorem tag_comes_first :
    ∃ history w, Run {} history w ∧ w.agenda = [] ∧
      (emittedOn "tags" history).map Change.kind = [.created, .removed] ∧
      emittedOn "tags" history = handedOn "tags" history ++ w.store.batch.queuedOn "tags" ∧
      w.store.batch.queue = [] := by
  have hrun : Run {} (World.played {} {} (tagging ++ untagging))
      (World.play {} {} (tagging ++ untagging)) := Run.start.play (tagging ++ untagging)
  have hrests : (World.play {} {} (tagging ++ untagging)).agenda = [] :=
    List.isEmpty_iff.mp (by decide +kernel)
  have hfirst : (World.played {} {} (tagging ++ untagging)).all (fun h =>
      (h.before.waitingOn "tags").isEmpty || (h.before.store.batch.queuedOn "tags").isEmpty) =
        true := by decide +kernel
  have horderly : ∀ h ∈ World.played {} {} (tagging ++ untagging), ¬h.Overtakes "tags" := by
    rintro h hmem ⟨-, hwaits, hqueued⟩
    rcases Bool.or_eq_true_iff.mp (List.all_eq_true.mp hfirst h hmem) with hnone | hnone
    · exact hwaits (List.isEmpty_iff.mp hnone)
    · exact hqueued (List.isEmpty_iff.mp hnone)
  obtain ⟨-, hall⟩ := Run.applied_in_order hrun (by decide) horderly
  exact ⟨_, _, hrun, hrests, by decide +kernel, hall hrests,
    List.isEmpty_iff.mp (by decide +kernel)⟩

/-- The tag is removed before it has come, and stays. -/
theorem tag_goes_first :
    ∃ history w, Run {} history w ∧ w.agenda = [] ∧
      (emittedOn "tags" history).map Change.kind = [.created, .removed] ∧
      (handedOn "tags" history).map Change.kind = [.removed, .created] ∧
      ¬handedOn "tags" history <+: emittedOn "tags" history := by
  have hrun : Run {} (World.played {} {} (tagging ++ overtaking))
      (World.play {} {} (tagging ++ overtaking)) := Run.start.play (tagging ++ overtaking)
  have hemitted : (emittedOn "tags" (World.played {} {} (tagging ++ overtaking))).map
      Change.kind = [.created, .removed] := by decide +kernel
  have hhanded : (handedOn "tags" (World.played {} {} (tagging ++ overtaking))).map
      Change.kind = [.removed, .created] := by decide +kernel
  refine ⟨_, _, hrun, List.isEmpty_iff.mp (by decide +kernel), hemitted, hhanded, fun hprefix => ?_⟩
  have hkinds := hprefix.map Change.kind
  rw [hemitted, hhanded] at hkinds
  revert hkinds
  decide

end Notes

end LiveQuery
