/-!
# Finite tables

A table is a list of bindings in which no key occurs twice. A key keeps its place when its value is
replaced and a new key comes last, so the keys stand in the order in which they first came.

The view of a table is its look-up `get?`: each operation has one equation through it
(`get?_insert`, `get?_erase`, `get?_map`, `get?_modify`), and `mem_entries` ties the bindings met
when walking through a table to it.
-/

namespace LiveQuery

universe u v w

/-- A finite map from `κ` to `α`. -/
structure Table (κ : Type u) (α : Type v) where
  entries : List (κ × α)
  nodup : (entries.map Prod.fst).Nodup

namespace Table

variable {κ : Type u} {α : Type v} {β : Type w}

def empty : Table κ α := ⟨[], List.nodup_nil⟩

instance : EmptyCollection (Table κ α) := ⟨empty⟩
instance : Inhabited (Table κ α) := ⟨empty⟩

def keys (t : Table κ α) : List κ := t.entries.map Prod.fst

def values (t : Table κ α) : List α := t.entries.map Prod.snd

section Entries

variable [DecidableEq κ]

/-- The value of the first binding of a key. -/
def lookup : List (κ × α) → κ → Option α
  | [], _ => none
  | (k, v) :: rest, key => if k = key then some v else lookup rest key

def bind : List (κ × α) → κ → α → List (κ × α)
  | [], key, value => [(key, value)]
  | (k, v) :: rest, key, value =>
    if k = key then (key, value) :: rest else (k, v) :: bind rest key value

theorem mem_map_fst_bind {es : List (κ × α)} {key : κ} {value : α} {k : κ} :
    k ∈ (bind es key value).map Prod.fst ↔ k = key ∨ k ∈ es.map Prod.fst := by
  induction es with
  | nil => simp [bind]
  | cons e es ih =>
    obtain ⟨l, v⟩ := e
    simp only [bind]
    split
    · next h => subst h; simp
    · simp only [List.map_cons, List.mem_cons, ih]
      exact or_left_comm

theorem nodup_bind {es : List (κ × α)} (h : (es.map Prod.fst).Nodup) (key : κ) (value : α) :
    ((bind es key value).map Prod.fst).Nodup := by
  induction es with
  | nil => simp [bind]
  | cons e es ih =>
    obtain ⟨l, v⟩ := e
    rw [List.map_cons, List.nodup_cons] at h
    simp only [bind]
    split
    · next hk => subst hk; exact List.nodup_cons.2 h
    · next hk =>
      rw [List.map_cons, List.nodup_cons]
      refine ⟨fun hm => ?_, ih h.2⟩
      rcases mem_map_fst_bind.1 hm with h' | h'
      · exact hk h'
      · exact h.1 h'

theorem lookup_bind (es : List (κ × α)) (key : κ) (value : α) (k : κ) :
    lookup (bind es key value) k = if key = k then some value else lookup es k := by
  induction es with
  | nil => rfl
  | cons e es ih =>
    obtain ⟨l, v⟩ := e
    simp only [bind]
    split
    · next h => subst h; simp only [lookup]; split <;> rfl
    · next h =>
      simp only [lookup, ih]
      split
      · next h' => subst h'; rw [if_neg (Ne.symm h)]
      · rfl

theorem lookup_filter (es : List (κ × α)) (p : κ → Bool) (k : κ) :
    lookup (es.filter fun e => p e.1) k = if p k then lookup es k else none := by
  induction es with
  | nil => simp [lookup]
  | cons e es ih =>
    obtain ⟨l, v⟩ := e
    rw [List.filter_cons]
    cases hl : p l with
    | true =>
      simp only [if_true, lookup, ih]
      split
      · next h => subst h; simp [hl]
      · rfl
    | false =>
      simp only [Bool.false_eq_true, if_false, lookup, ih]
      by_cases h : l = k
      · subst h; simp [hl]
      · rw [if_neg h]

theorem lookup_map (es : List (κ × α)) (f : κ → α → β) (k : κ) :
    lookup (es.map fun e => (e.1, f e.1 e.2)) k = (lookup es k).map (f k) := by
  induction es with
  | nil => rfl
  | cons e es ih =>
    obtain ⟨l, v⟩ := e
    simp only [List.map_cons, lookup, ih]
    split
    · next h => subst h; rfl
    · rfl

theorem lookup_eq_none {es : List (κ × α)} {k : κ} :
    lookup es k = none ↔ k ∉ es.map Prod.fst := by
  induction es with
  | nil => simp [lookup]
  | cons e es ih =>
    obtain ⟨l, v⟩ := e
    simp only [lookup, List.map_cons, List.mem_cons, not_or]
    split
    · next h => simp [h]
    · next h => rw [ih]; exact ⟨fun hn => ⟨fun he => h he.symm, hn⟩, And.right⟩

theorem lookup_eq_some {es : List (κ × α)} (h : (es.map Prod.fst).Nodup) {k : κ} {v : α} :
    lookup es k = some v ↔ (k, v) ∈ es := by
  induction es with
  | nil => simp [lookup]
  | cons e es ih =>
    obtain ⟨l, w⟩ := e
    rw [List.map_cons, List.nodup_cons] at h
    simp only [lookup, List.mem_cons, Prod.mk.injEq]
    split
    · next hk =>
      subst hk
      refine ⟨fun he => .inl ⟨rfl, (Option.some.inj he).symm⟩, ?_⟩
      rintro (⟨-, rfl⟩ | hm)
      · rfl
      · exact absurd (List.mem_map_of_mem hm) h.1
    · next hk =>
      rw [ih h.2]
      exact ⟨.inr, fun ho => ho.resolve_left fun he => hk he.1.symm⟩

end Entries

variable [DecidableEq κ]

def get? (t : Table κ α) (key : κ) : Option α := lookup t.entries key

def contains (t : Table κ α) (key : κ) : Bool := (t.get? key).isSome

def insert (t : Table κ α) (key : κ) (value : α) : Table κ α :=
  ⟨bind t.entries key value, nodup_bind t.nodup key value⟩

def erase (t : Table κ α) (key : κ) : Table κ α :=
  ⟨t.entries.filter fun e => e.1 ≠ key,
    (List.filter_sublist.map Prod.fst).nodup t.nodup⟩

def map (t : Table κ α) (f : κ → α → β) : Table κ β :=
  ⟨t.entries.map fun e => (e.1, f e.1 e.2), by simpa [Function.comp_def] using t.nodup⟩

def modify (t : Table κ α) (key : κ) (f : α → α) : Table κ α :=
  t.map fun k v => if k = key then f v else v

def ofList (bindings : List (κ × α)) : Table κ α :=
  bindings.foldl (fun t b => t.insert b.1 b.2) ∅

@[simp] theorem get?_empty (key : κ) : (∅ : Table κ α).get? key = none := rfl

theorem get?_insert (t : Table κ α) (key : κ) (value : α) (k : κ) :
    (t.insert key value).get? k = if key = k then some value else t.get? k :=
  lookup_bind t.entries key value k

@[simp] theorem get?_insert_self (t : Table κ α) (key : κ) (value : α) :
    (t.insert key value).get? key = some value := by simp [get?_insert]

theorem get?_erase (t : Table κ α) (key k : κ) :
    (t.erase key).get? k = if key = k then none else t.get? k := by
  have h := lookup_filter t.entries (fun k => decide (k ≠ key)) k
  refine h.trans ?_
  by_cases hk : k = key
  · subst hk; simp
  · simp [hk, Ne.symm hk, get?]

@[simp] theorem get?_erase_self (t : Table κ α) (key : κ) : (t.erase key).get? key = none := by
  simp [get?_erase]

@[simp] theorem get?_map (t : Table κ α) (f : κ → α → β) (k : κ) :
    (t.map f).get? k = (t.get? k).map (f k) :=
  lookup_map t.entries f k

theorem get?_modify (t : Table κ α) (key : κ) (f : α → α) (k : κ) :
    (t.modify key f).get? k = if k = key then (t.get? k).map f else t.get? k := by
  rw [modify, get?_map]
  split
  · rfl
  · cases t.get? k <;> rfl

/-- Walking through a table meets exactly the bindings that look-up finds. -/
theorem mem_entries {t : Table κ α} {k : κ} {v : α} : (k, v) ∈ t.entries ↔ t.get? k = some v :=
  (lookup_eq_some t.nodup).symm

theorem mem_keys {t : Table κ α} {k : κ} : k ∈ t.keys ↔ (t.get? k).isSome := by
  rw [← Decidable.not_iff_not, Bool.not_eq_true, Option.isSome_eq_false_iff,
    Option.isNone_iff_eq_none]
  exact (@lookup_eq_none _ _ _ t.entries k).symm

@[simp] theorem contains_eq_true {t : Table κ α} {k : κ} :
    t.contains k = true ↔ ∃ v, t.get? k = some v := by
  simp [contains, Option.isSome_iff_exists]

/-! ### When two operations come to the same -/

omit [DecidableEq κ] in
theorem eq_of_entries {t u : Table κ α} (h : t.entries = u.entries) : t = u := by
  cases t
  cases u
  cases h
  rfl

theorem bind_eq_self {es : List (κ × α)} {key : κ} {value : α} (h : lookup es key = some value) :
    bind es key value = es := by
  induction es with
  | nil => cases h
  | cons e es ih =>
    obtain ⟨l, v⟩ := e
    simp only [lookup] at h
    simp only [bind]
    split at h
    · next hk => rw [if_pos hk, hk, Option.some.inj h]
    · next hk => rw [if_neg hk, ih h]

theorem insert_eq_self {t : Table κ α} {key : κ} {value : α} (h : t.get? key = some value) :
    t.insert key value = t :=
  eq_of_entries (bind_eq_self h)

theorem erase_eq_self {t : Table κ α} {key : κ} (h : t.get? key = none) : t.erase key = t := by
  refine eq_of_entries (List.filter_eq_self.2 fun e he => decide_eq_true ?_)
  rintro rfl
  exact lookup_eq_none.1 h (List.mem_map_of_mem he)

theorem map_eq_self {t : Table κ α} {f : κ → α → α}
    (h : ∀ key value, t.get? key = some value → f key value = value) : t.map f = t := by
  refine eq_of_entries ((List.map_congr_left fun e he => ?_).trans (List.map_id _))
  rw [h e.1 e.2 (mem_entries.1 he)]
  rfl

theorem map_congr {t : Table κ α} {f g : κ → α → β}
    (h : ∀ key value, t.get? key = some value → f key value = g key value) : t.map f = t.map g :=
  eq_of_entries (List.map_congr_left fun e he => by rw [h e.1 e.2 (mem_entries.1 he)])

omit [DecidableEq κ] in
theorem map_map {γ : Type w} (t : Table κ α) (f : κ → α → β) (g : κ → β → γ) :
    (t.map f).map g = t.map fun key value => g key (f key value) :=
  eq_of_entries List.map_map

end Table

end LiveQuery
