import LiveQuery.Store.World
import Mathlib.Data.List.Induction

/-!
# Histories

What can be said of a run from its last act back, and the run in which given acts are
tried one after the other.
-/

namespace LiveQuery

variable {setup : Setup} {history since : List Happening} {w : World}

theorem run_nil : Run setup [] w ↔ w = {} := by
  constructor
  · intro h
    generalize hall : ([] : List Happening) = all at h
    cases h with
    | start => rfl
    | act => simp at hall
  · rintro rfl
    exact .start

theorem run_concat {last : Happening} :
    Run setup (history ++ [last]) w ↔
      Run setup history last.before ∧
        last.before.act? setup last.act = some (last.after, last.signal) ∧ w = last.after := by
  constructor
  · intro h
    generalize hall : history ++ [last] = all at h
    cases h with
    | start => simp at hall
    | act hrun hact =>
      obtain ⟨rfl, hlast⟩ := List.append_inj' hall rfl
      cases hlast
      exact ⟨hrun, hact, rfl⟩
  · rintro ⟨hrun, hact, rfl⟩
    exact .act hrun hact

/-- A run has come to each thing that has happened, and that has happened next. -/
theorem Run.until {before : List Happening} {h : Happening}
    (run : Run setup (before ++ h :: since) w) : Run setup (before ++ [h]) h.after := by
  induction since using List.reverseRecOn generalizing w with
  | nil =>
    obtain ⟨-, -, rfl⟩ := run_concat.mp run
    exact run
  | append_singleton since last ih =>
    rw [← List.cons_append, ← List.append_assoc] at run
    exact ih (run_concat.mp run).1

/-- Try acts one after the other. An act that cannot happen is passed over. -/
def World.play (setup : Setup) (w : World) (acts : List Act) : World :=
  acts.foldl (fun w a => ((w.act? setup a).map Prod.fst).getD w) w

/-- What has happened when acts are tried one after the other. -/
def World.played (setup : Setup) (w : World) : List Act → List Happening
  | [] => []
  | a :: acts =>
    match w.act? setup a with
    | some (w', signal) => ⟨w, a, signal, w'⟩ :: w'.played setup acts
    | none => w.played setup acts

/-- Acts that are tried one after the other make a run go on. -/
theorem Run.play (h : Run setup history w) (acts : List Act) :
    Run setup (history ++ w.played setup acts) (w.play setup acts) := by
  induction acts generalizing history w with
  | nil => simpa [World.played, World.play] using h
  | cons a acts ih =>
    unfold World.played World.play
    rw [List.foldl_cons]
    cases hact : w.act? setup a with
    | none => exact ih h
    | some next =>
      have hnext := ih (.act h hact)
      rwa [List.append_assoc] at hnext

theorem World.act?_eq_some_play {a : Act} (h : (w.act? setup a).isSome = true) :
    ∃ signal, w.act? setup a = some (w.play setup [a], signal) := by
  obtain ⟨⟨w', signal⟩, hact⟩ := Option.isSome_iff_exists.mp h
  refine ⟨signal, ?_⟩
  simp [World.play, hact]

theorem World.act?_eq_play {a : Act}
    (happens : (w.act? setup a).map (·.2.isNone) = some true) :
    w.act? setup a = some (w.play setup [a], none) := by
  obtain ⟨⟨w', signal⟩, hact, hsilent⟩ := Option.map_eq_some_iff.mp happens
  obtain rfl := Option.isNone_iff_eq_none.mp hsilent
  simp [World.play, hact]

/-! ## A cache of notes -/

namespace Notes

def ideas : QueryRef where
  descriptor := ⟨"notes", .find, none, some [("query", .object [("tag", .string "idea")])]⟩
  config := {}
  id := ⟨"q/7def9bb5fbde7648"⟩
  id_eq := by decide +kernel

def note (id time : Int) (tag : String) : Json :=
  .object [("id", .int id), ("tag", .string tag), ("updatedAt", .int time)]

def asking : List Act :=
  [.materialize ideas, .goOn, .giveBack, .goOn, .subscribe ideas.id]

def firstAnswer : Act :=
  .answered ideas.id 1 (.ok (.list [note 1 100 "idea"], [("total", .int 1)]))

def asked : World := World.play {} {} asking
def handed : World := asked.play {} [.goOn, .giveBack, .goOn]
def landed : World := handed.play {} [firstAnswer]
def opened : World := landed.play {} [.goOn, .giveBack]

theorem run_asked : Run {} (World.played {} {} asking) asked :=
  Run.start.play asking

theorem run_handed : ∃ history, Run {} history handed :=
  ⟨_, run_asked.play _⟩

theorem run_opened : ∃ history, Run {} history opened := by
  obtain ⟨history, hrun⟩ := run_handed
  exact ⟨_, (hrun.play _).play _⟩

end Notes

end LiveQuery
