import LiveQuery.Proofs.Service.Operations
import Mathlib.Logic.Basic

/-!
# What an effect does to a query

A change has one of four effects on a query. Seen through the items that the query
shows, the effects are a `filter`, a `map`, an item at the end, and nothing, whether the
query reads a list or a single item (`shown_drop`, `shown_replace`, `shown_append`).
The effect itself follows from two facts: whether the query holds the item and whether
it wants it (`effect_eq_leaves`, `effect_eq_stays`, `effect_eq_joins`).
-/

namespace LiveQuery

/-- Is a result of the kind that a method brings? -/
def QueryData.suits : QueryData → Method → Prop
  | .item _, method => method = .get
  | .list _, method => method = .find

namespace Query

variable {conv : Conventions} {q : Query} {id k : ItemId} {item : Json}
variable {change : Change} {held : Bool}

/-! ## Results of the right kind -/

/-- The result, if there is one, is of the kind that the query's method brings. -/
def Fits (q : Query) : Prop :=
  ∀ data, q.state.data = some data → data.suits q.descriptor.method

theorem shown_of_data (data : QueryData) (h : q.state.data = some data) :
    q.state.shown = data.all := by
  simp [QueryState.shown, h]

theorem shown_of_none (h : q.state.data = none) : q.state.shown = [] := by
  simp [QueryState.shown, h]

theorem Fits.eq_list (fits : q.Fits) (find : q.descriptor.method = .find)
    (fetched : q.state.data.isSome = true) : q.state.data = some (.list q.state.shown) := by
  obtain ⟨data, hd⟩ := Option.isSome_iff_exists.mp fetched
  have suits := fits data hd
  rw [find] at suits
  cases data with
  | item item => cases suits
  | list items => rw [shown_of_data _ hd, hd]; rfl

theorem Fits.eq_item (fits : q.Fits) (get : q.descriptor.method = .get)
    (fetched : q.state.data.isSome = true) :
    ∃ item, q.state.data = some (.item item) := by
  obtain ⟨data, hd⟩ := Option.isSome_iff_exists.mp fetched
  have suits := fits data hd
  rw [get] at suits
  cases data with
  | item item => exact ⟨item, hd⟩
  | list items => cases suits

/-! ## Showing an id -/

/-- Does the result show an item with this id? -/
def Shows (conv : Conventions) (q : Query) (id : ItemId) : Prop :=
  id ∈ Service.idsOf conv q.state.shown

theorem shows_iff :
    q.Shows conv id ↔ ∃ item ∈ q.state.shown, conv.idOf item = some id :=
  Service.mem_idsOf

theorem data_isSome_of_shows (h : q.Shows conv id) : q.state.data.isSome = true := by
  cases hd : q.state.data with
  | none =>
    rw [shows_iff, shown_of_none hd] at h
    obtain ⟨_, hmem, _⟩ := h
    cases hmem
  | some data => rfl

theorem not_shows_of_none (h : q.state.data = none) : ¬q.Shows conv id := by
  intro hs
  have hsome := data_isSome_of_shows hs
  rw [h] at hsome
  cases hsome

/-! ## The effects on what is shown -/

theorem shown_drop (fits : q.Fits) (shown : q.Shows conv id) :
    (q.drop conv id).state.shown =
      q.state.shown.filter fun old => conv.idOf old != some id := by
  have fetched := data_isSome_of_shows shown
  cases hm : q.descriptor.method with
  | get =>
    obtain ⟨item, hd⟩ := fits.eq_item hm fetched
    rw [shows_iff, shown_of_data _ hd] at shown
    simp only [QueryData.all, List.mem_singleton, exists_eq_left] at shown
    rw [shown_of_data _ hd, shown_of_none (by simp [drop, hm, withData])]
    simp [QueryData.all, shown]
  | find =>
    have hd := fits.eq_list hm fetched
    rw [shown_of_data (.list _)
      (by simp only [drop, hm, mapList, hd, withMetadata]; rfl)]
    rfl

theorem shown_replace (fits : q.Fits) (shown : q.Shows conv id) :
    (q.replace conv id item).state.shown =
      q.state.shown.map fun old => if conv.idOf old == some id then item else old := by
  have fetched := data_isSome_of_shows shown
  cases hm : q.descriptor.method with
  | get =>
    obtain ⟨old, hd⟩ := fits.eq_item hm fetched
    rw [shows_iff, shown_of_data _ hd] at shown
    simp only [QueryData.all, List.mem_singleton, exists_eq_left] at shown
    rw [shown_of_data _ hd, shown_of_data (.item item) (by simp [replace, hm, withData])]
    simp [QueryData.all, shown]
  | find =>
    have hd := fits.eq_list hm fetched
    rw [shown_of_data (.list _) (by simp only [replace, hm, mapList, hd]; rfl)]
    rfl

theorem shown_append (fits : q.Fits) (find : q.descriptor.method = .find)
    (fetched : q.state.data.isSome = true) :
    (q.append conv item).state.shown = q.state.shown ++ [item] := by
  have hd := fits.eq_list find fetched
  rw [shown_of_data (.list (q.state.shown ++ [item]))
    (by simp [append, hd, withData, withMetadata])]
  rfl

/-! ## What an effect leaves alone -/

section Merge

variable {effect : Effect}

theorem merge_eq (conv : Conventions) (id : ItemId) (item : Json) (q : Query)
    (effect : Effect) :
    ∃ data metadata, q.merge conv id item effect =
      { q with state := { q.state with data, metadata } } := by
  cases effect with
  | leaves =>
    simp only [merge, drop, mapList, withData, withMetadata]
    split
    · exact ⟨_, _, rfl⟩
    · split <;> exact ⟨_, _, rfl⟩
  | stays =>
    simp only [merge, replace, mapList, withData]
    split
    · exact ⟨_, _, rfl⟩
    · split <;> exact ⟨_, _, rfl⟩
  | joins =>
    simp only [merge, append, withData, withMetadata]
    split <;> exact ⟨_, _, rfl⟩
  | unaffected => exact ⟨_, _, rfl⟩

@[simp] theorem descriptor_merge :
    (q.merge conv id item effect).descriptor = q.descriptor := by
  obtain ⟨_, _, h⟩ := merge_eq conv id item q effect
  rw [h]

@[simp] theorem config_merge : (q.merge conv id item effect).config = q.config := by
  obtain ⟨_, _, h⟩ := merge_eq conv id item q effect
  rw [h]

@[simp] theorem accepts_merge : (q.merge conv id item effect).accepts = q.accepts := by
  obtain ⟨_, _, h⟩ := merge_eq conv id item q effect
  rw [h]

@[simp] theorem epoch_merge : (q.merge conv id item effect).epoch = q.epoch := by
  obtain ⟨_, _, h⟩ := merge_eq conv id item q effect
  rw [h]

@[simp] theorem inFlight_merge :
    (q.merge conv id item effect).inFlight = q.inFlight := by
  obtain ⟨_, _, h⟩ := merge_eq conv id item q effect
  rw [h]
  rfl

@[simp] theorem merges_merge : (q.merge conv id item effect).merges = q.merges := by
  simp [merges]

end Merge

/-! ## Which effect a change has -/

/-- Should the result hold the item after the change? -/
def wants (q : Query) (change : Change) : Bool :=
  change.kind != .removed && q.accepts change.item

theorem effect_eq_leaves :
    q.effect held change = .leaves ↔
      q.merges = true ∧ held = true ∧ q.wants change = false := by
  unfold effect wants
  dsimp only
  grind

theorem effect_eq_stays :
    q.effect held change = .stays ↔
      q.merges = true ∧ held = true ∧ q.wants change = true := by
  unfold effect wants
  dsimp only
  grind

theorem effect_eq_joins :
    q.effect held change = .joins ↔
      q.merges = true ∧ held = false ∧ q.wants change = true ∧
        q.descriptor.method = .find ∧ q.state.data.isSome = true := by
  unfold effect wants
  dsimp only
  grind

end Query

end LiveQuery
