import LiveQuery.Proofs.Json.Equality

/-!
# Members in any order

An object is built by inserting its members one by one. Where no name occurs twice it does not
matter in which order: the object has just these members (`ofList_perm`), and since its names are
sorted there is one such object (`Sorted.eq_of_perm`).
-/

namespace LiveQuery.Fields

variable {ms ns more : Fields} {key : String} {v : Json}

def names (ms : Fields) : List String := ms.map Prod.fst

@[simp] theorem names_nil : names [] = [] := rfl

@[simp] theorem names_cons (m : String × Json) (ms : Fields) : names (m :: ms) = m.1 :: names ms :=
  rfl

@[simp] theorem names_append : names (ms ++ ns) = names ms ++ names ns := List.map_append

theorem mem_names {m : String × Json} (mem : m ∈ ms) : m.1 ∈ names ms := List.mem_map_of_mem mem

theorem Sorted.nodup_names (sorted : Sorted ms) : (names ms).Nodup := by
  refine List.pairwise_map.mpr (List.Pairwise.imp ?_ sorted)
  intro a b lt heq
  exact String.lt_irrefl b.1 (heq ▸ lt)

theorem Sorted.nodup (sorted : Sorted ms) : ms.Nodup :=
  List.Pairwise.of_map Prod.fst (fun _ _ ne heq => ne (congrArg Prod.fst heq)) sorted.nodup_names

theorem get?_of_mem (distinct : (names ms).Nodup) (mem : (key, v) ∈ ms) :
    get? ms key = some v := by
  induction ms with
  | nil => cases mem
  | cons m ms ih =>
    obtain ⟨k, u⟩ := m
    obtain ⟨hfresh, hrest⟩ := List.nodup_cons.mp distinct
    rw [get?_cons]
    rcases List.mem_cons.mp mem with heq | hmem
    · obtain ⟨rfl, rfl⟩ := Prod.mk.inj heq
      exact if_pos rfl
    · have hkey : key ∈ names ms := mem_names hmem
      have hne : k ≠ key := fun h => hfresh (h ▸ hkey)
      rw [if_neg hne, ih hrest hmem]

theorem Sorted.eq_of_perm (hm : Sorted ms) (hn : Sorted ns) (perm : ms.Perm ns) : ms = ns :=
  perm.eq_of_pairwise (fun _ _ _ _ hab hba => absurd (String.lt_trans hab hba)
    (String.lt_irrefl _)) hm hn

/-- Sorted members are determined by what look-up finds. -/
theorem Sorted.eq_of_get? (hm : Sorted ms) (hn : Sorted ns)
    (same : ∀ key, get? ms key = get? ns key) : ms = ns := by
  have hsub : ∀ {as bs : Fields}, Sorted as → (∀ key, get? as key = get? bs key) →
      ∀ m ∈ as, m ∈ bs := by
    intro as bs sorted same m mem
    have hfound := get?_of_mem sorted.nodup_names mem
    rw [same] at hfound
    exact mem_of_get? hfound
  refine hm.eq_of_perm hn ((List.perm_ext_iff_of_nodup hm.nodup hn.nodup).mpr fun m => ?_)
  exact ⟨hsub hm same m, hsub hn (fun key => (same key).symm) m⟩

theorem get?_filter (p : String → Bool) (ms : Fields) (key : String) :
    get? (ms.filter fun m => p m.1) key = if p key then get? ms key else none := by
  induction ms with
  | nil => simp
  | cons m ms ih =>
    obtain ⟨k, u⟩ := m
    by_cases hk : k = key
    · subst hk
      cases hp : p k <;> simp [hp, get?_cons, ih]
    · cases hp : p k <;> simp [hp, get?_cons, ih, hk]

theorem insert_perm (fresh : key ∉ names ms) (v : Json) :
    (insert ms key v).Perm ((key, v) :: ms) := by
  induction ms with
  | nil => exact .refl _
  | cons m ms ih =>
    obtain ⟨k, u⟩ := m
    obtain ⟨hne, hfresh⟩ := not_or.mp (fun h => fresh (List.mem_cons.mpr h))
    rw [insert, if_neg (Ne.symm hne)]
    split
    · exact .refl _
    · exact ((ih hfresh).cons (k, u)).trans (.swap _ _ _)

theorem merge_perm (distinct : (names (ms ++ more)).Nodup) : (merge ms more).Perm (ms ++ more) := by
  induction more generalizing ms with
  | nil => rw [List.append_nil]; exact .refl _
  | cons m more ih =>
    have hmid : (ms ++ m :: more).Perm (m :: ms ++ more) := List.perm_middle
    have hdistinct : (names (m :: ms ++ more)).Nodup := (hmid.map Prod.fst).nodup distinct
    have hfresh : m.1 ∉ names ms := fun hmem => by
      have happend : m.1 ∈ names (ms ++ more) := by
        rw [names_append]
        exact List.mem_append_left _ hmem
      exact (List.nodup_cons.mp hdistinct).1 happend
    have hinsert : (insert ms m.1 m.2).Perm (m :: ms) := insert_perm hfresh m.2
    have hrest : (insert ms m.1 m.2 ++ more).Perm (m :: ms ++ more) := hinsert.append_right more
    exact (ih ((hrest.map Prod.fst).symm.nodup hdistinct)).trans (hrest.trans hmid.symm)

theorem ofList_perm (distinct : (names ms).Nodup) : (ofList ms).Perm ms := merge_perm distinct

end LiveQuery.Fields
