import LiveQuery.Json.Basic

/-!
# The members of an object

Look-up, insertion and removal by name. Insertion keeps the names strictly increasing and replaces
the value of a name that is there (`get?_insert`, `sorted_insert`); removal takes exactly that name
away (`get?_erase`).
-/

namespace LiveQuery

namespace Fields

def get? : Fields → String → Option Json
  | [], _ => none
  | (k, v) :: rest, key => if k = key then some v else get? rest key

def contains (fs : Fields) (key : String) : Bool := (get? fs key).isSome

def insert : Fields → String → Json → Fields
  | [], key, value => [(key, value)]
  | (k, v) :: rest, key, value =>
    if k = key then (key, value) :: rest
    else if key < k then (key, value) :: (k, v) :: rest
    else (k, v) :: insert rest key value

def erase (fs : Fields) (key : String) : Fields := fs.filter fun member => member.1 ≠ key

/-- Put the members of `more` over those of `fs`. -/
def merge (fs more : Fields) : Fields := more.foldl (fun acc member => insert acc member.1 member.2) fs

/-- The object with the given members, the last one of a name counting. -/
def ofList (members : List (String × Json)) : Fields := merge [] members

def Sorted (fs : Fields) : Prop := fs.Pairwise fun a b => a.1 < b.1

@[simp] theorem get?_nil (key : String) : get? [] key = none := rfl

theorem get?_cons (k : String) (v : Json) (fs : Fields) (key : String) :
    get? ((k, v) :: fs) key = if k = key then some v else get? fs key := rfl

theorem get?_insert (fs : Fields) (key : String) (value : Json) (k : String) :
    get? (insert fs key value) k = if key = k then some value else get? fs k := by
  induction fs with
  | nil => rfl
  | cons m fs ih =>
    obtain ⟨l, v⟩ := m
    simp only [insert]
    split
    · next h => subst h; simp only [get?_cons]; split <;> rfl
    · split
      · simp only [get?_cons]
      · next hne _ =>
        simp only [get?_cons, ih]
        split
        · next h => subst h; rw [if_neg (Ne.symm hne)]
        · rfl

theorem get?_erase (fs : Fields) (key k : String) :
    get? (erase fs key) k = if key = k then none else get? fs k := by
  induction fs with
  | nil => simp [erase]
  | cons m fs ih =>
    obtain ⟨l, v⟩ := m
    unfold erase at ih ⊢
    by_cases h : l = key
    · subst h
      simp only [ne_eq, not_true_eq_false, decide_false, Bool.false_eq_true, not_false_eq_true,
        List.filter_cons_of_neg, ih, get?_cons]
      split <;> rfl
    · simp only [ne_eq, h, not_false_eq_true, decide_true, List.filter_cons_of_pos, get?_cons, ih]
      split
      · next h' => subst h'; rw [if_neg (Ne.symm h)]
      · rfl

theorem mem_insert {fs : Fields} {key : String} {value : Json} {m : String × Json}
    (h : m ∈ insert fs key value) : m = (key, value) ∨ m ∈ fs := by
  induction fs with
  | nil => exact .inl (by simpa [insert] using h)
  | cons a fs ih =>
    obtain ⟨k, v⟩ := a
    simp only [insert] at h
    split at h
    · rcases List.mem_cons.1 h with h | h
      · exact .inl h
      · exact .inr (List.mem_cons_of_mem _ h)
    · split at h
      · rcases List.mem_cons.1 h with h | h
        · exact .inl h
        · exact .inr h
      · rcases List.mem_cons.1 h with h | h
        · exact .inr (h ▸ List.mem_cons_self)
        · exact (ih h).imp id (List.mem_cons_of_mem _)

theorem sorted_insert {fs : Fields} (h : Sorted fs) (key : String) (value : Json) :
    Sorted (insert fs key value) := by
  induction fs with
  | nil => simp [insert, Sorted]
  | cons a fs ih =>
    obtain ⟨k, v⟩ := a
    obtain ⟨hk, hfs⟩ := List.pairwise_cons.1 h
    simp only [insert]
    split
    · next he => subst he; exact List.pairwise_cons.2 ⟨hk, hfs⟩
    · split
      · next hlt =>
        refine List.pairwise_cons.2 ⟨fun m hm => ?_, h⟩
        rcases List.mem_cons.1 hm with rfl | hm
        · exact hlt
        · exact String.lt_trans hlt (hk m hm)
      · next hne hnlt =>
        refine List.pairwise_cons.2 ⟨fun m hm => ?_, ih hfs⟩
        rcases mem_insert hm with rfl | hm
        · exact Decidable.byContradiction fun hn =>
            hne (String.le_antisymm (String.not_lt.1 hnlt) (String.not_lt.1 hn))
        · exact hk m hm

theorem sorted_merge {fs : Fields} (h : Sorted fs) (more : Fields) : Sorted (merge fs more) := by
  induction more generalizing fs with
  | nil => exact h
  | cons m more ih => exact ih (sorted_insert h m.1 m.2)

theorem sorted_ofList (members : List (String × Json)) : Sorted (ofList members) :=
  sorted_merge List.Pairwise.nil members

end Fields

def Json.get? (v : Json) (key : String) : Option Json :=
  match v with
  | .object fs => Fields.get? fs key
  | _ => none

end LiveQuery
