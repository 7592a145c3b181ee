import LiveQuery.Proofs.Json.Members
import LiveQuery.Proofs.Query.Combinators

/-!
# Rewriting filters

Filters obey the laws of propositional logic. A filter may be split into its members, and
sub-filters of distinct names may be merged; a conjunction inside a conjunction may be flattened,
and a conjunction distributes over a disjunction inside it. Names that shape a result may be struck
out at every depth. `Lawful` lists the laws for one item, and `lawful` proves them for every item.

All laws but one are read off two equations: a combinator asks all or any of its sub-filters
(`accepts_conj`, `accepts_disj`). The shaping names need an induction over the depth of a filter
(`allHold_unshaped`).
-/

namespace LiveQuery.Filter

def conj (subs : List Json) : Json := .object [("$and", .array subs)]

def disj (subs : List Json) : Json := .object [("$or", .array subs)]

mutual

/-- A filter without the names that shape a result, also in all its sub-filters. -/
def unshaped : List (String × Json) → List (String × Json)
  | [] => []
  | (name, condition) :: rest =>
    if name ∈ shapingNames then unshaped rest
    else (name, unshapedCondition name condition) :: unshaped rest

/-- The value of a member, without the shaping names in the sub-filters if there are any. -/
def unshapedCondition (name : String) : Json → Json
  | .array subs => .array (if name ∈ ["$and", "$or"] then unshapedItems subs else subs)
  | condition => condition

/-- A list of sub-filters, each without its shaping names. -/
def unshapedItems : List Json → List Json
  | [] => []
  | .object sub :: subs => .object (unshaped sub) :: unshapedItems subs
  | v :: subs => v :: unshapedItems subs

end

/-- One filter is the other with a sub-filter, at any depth, replaced by one that `R` relates to
it. -/
inductive Within (R : Fields → Fields → Prop) : Fields → Fields → Prop
  | here {f g : Fields} (related : R f g) : Within R f g
  | under {f g : Fields} {name : String} (front back : Fields) (before behind : List Json)
      (combinator : name ∈ ["$and", "$or"]) (within : Within R f g) :
      Within R (front ++ (name, .array (before ++ .object f :: behind)) :: back)
        (front ++ (name, .array (before ++ .object g :: behind)) :: back)

/-! ## Combinators -/

variable {item : Json} {subs : List Json}

theorem accepts_object (ms : Fields) (item : Json) :
    accepts (some (.object ms)) item = allHold ms item := rfl

theorem allHold_conj (subs : List Json) (item : Json) :
    allHold [("$and", .array subs)] item = (objects subs).all (allHold · item) := by
  rw [allHold_singleton, memberHolds_and, subFilters_array]

theorem allHold_disj (subs : List Json) (item : Json) :
    allHold [("$or", .array subs)] item = (objects subs).any (allHold · item) := by
  rw [allHold_singleton, memberHolds_or, subFilters_array]

theorem accepts_conj (subs : List Json) (item : Json) :
    accepts (some (conj subs)) item = (objects subs).all (allHold · item) :=
  allHold_conj subs item

theorem accepts_disj (subs : List Json) (item : Json) :
    accepts (some (disj subs)) item = (objects subs).any (allHold · item) :=
  allHold_disj subs item

/-! ## Shaping names -/

theorem objects_unshapedItems (subs : List Json) :
    objects (unshapedItems subs) = (objects subs).map unshaped := by
  induction subs with
  | nil => rw [unshapedItems]; rfl
  | cons sub subs ih =>
    cases sub with
    | object ms => rw [unshapedItems, objects_cons_object, objects_cons_object, ih, List.map_cons]
    | null | bool | number | string | array => simp only [unshapedItems]; exact ih

theorem subFilters_unshapedCondition {name : String} (combinator : name ∈ ["$and", "$or"])
    (condition : Json) :
    subFilters (unshapedCondition name condition) = (subFilters condition).map unshaped := by
  cases condition with
  | array subs =>
    rw [unshapedCondition, if_pos combinator, subFilters_array, subFilters_array]
    exact objects_unshapedItems subs
  | null | bool | number | string | object => simp only [unshapedCondition]; rfl

theorem unshapedCondition_of_field {name : String} (field : name ∉ ["$and", "$or"])
    (condition : Json) : unshapedCondition name condition = condition := by
  cases condition <;> simp only [unshapedCondition, if_neg field]

theorem memberHolds_unshaped {condition : Json} (name : String)
    (same : ∀ sub ∈ subFilters condition, allHold (unshaped sub) item = allHold sub item) :
    memberHolds name (unshapedCondition name condition) item = memberHolds name condition item := by
  by_cases combinator : name ∈ ["$and", "$or"]
  · have hsubs := subFilters_unshapedCondition combinator condition
    obtain rfl | rfl : name = "$and" ∨ name = "$or" := by simpa using combinator
    · rw [memberHolds_and, memberHolds_and, hsubs, List.all_map]
      exact all_eq_all same
    · rw [memberHolds_or, memberHolds_or, hsubs, List.any_map]
      exact any_eq_any same
  · rw [unshapedCondition_of_field combinator]

theorem allHold_unshaped (ms : Fields) (item : Json) :
    allHold (unshaped ms) item = allHold ms item := by
  induction ms using subFilter_induction with
  | step ms same =>
    induction ms with
    | nil => rw [unshaped]
    | cons m ms ih =>
      obtain ⟨name, condition⟩ := m
      obtain ⟨hmember, hrest⟩ := List.forall_mem_cons.mp same
      rw [unshaped]
      split
      · next shaping =>
        rw [ih hrest, allHold, memberHolds_of_shaping shaping, Bool.true_and]
      · rw [allHold, allHold, ih hrest, memberHolds_unshaped name hmember]

/-! ## Conjunctions and disjunctions -/

theorem accepts_iff_members (ms : Fields) (item : Json) :
    accepts (some (.object ms)) item = true ↔
      ∀ m ∈ ms, accepts (some (.object [m])) item = true := by
  simp only [accepts_object, allHold_singleton, allHold_eq_all ms, List.all_eq_true]

theorem accepts_split (ms : Fields) (item : Json) :
    accepts (some (conj (ms.map fun m => .object [m]))) item =
      accepts (some (.object ms)) item := by
  rw [accepts_conj, objects_map_object, accepts_object, allHold_eq_all, List.all_map]
  simp only [Function.comp_def, allHold_singleton]

theorem all_allHold (parts : List Fields) (item : Json) :
    parts.all (allHold · item) = allHold parts.flatten item := by
  simp only [allHold_eq_all, List.all_flatten]

/-- Sub-filters of distinct names, wherever they stand in a conjunction, can be put into one. -/
theorem accepts_merge {parts : List Fields} {others merged : List Json}
    (distinct : (Fields.names parts.flatten).Nodup)
    (hsubs : subs.Perm (parts.map .object ++ others))
    (hmerged : merged.Perm (.object (Fields.ofList parts.flatten) :: others)) :
    accepts (some (conj merged)) item = accepts (some (conj subs)) item := by
  have hjoined : allHold (Fields.ofList parts.flatten) item = allHold parts.flatten item :=
    allHold_perm (Fields.ofList_perm distinct)
  have hparts : objects (parts.map .object) = parts := by
    simpa using objects_map_object (fun part => part) parts
  calc accepts (some (conj merged)) item
      = (objects (.object (Fields.ofList parts.flatten) :: others)).all (allHold · item) := by
        rw [accepts_conj]
        exact (hmerged.filterMap _).all_eq
    _ = (parts.all (allHold · item) && (objects others).all (allHold · item)) := by
        rw [objects_cons_object, List.all_cons, hjoined, all_allHold parts]
    _ = (objects (parts.map .object ++ others)).all (allHold · item) := by
        rw [objects_append, hparts, List.all_append]
    _ = accepts (some (conj subs)) item := by
        rw [accepts_conj]
        exact (hsubs.filterMap _).all_eq.symm

theorem accepts_flatten (before inner behind : List Json) (item : Json) :
    accepts (some (conj (before ++ conj inner :: behind))) item =
      accepts (some (conj (before ++ inner ++ behind))) item := by
  rw [accepts_conj, accepts_conj, conj]
  simp only [objects_append, objects_cons_object, List.all_append, List.all_cons, allHold_conj,
    Bool.and_assoc]

theorem accepts_distribute (before alternatives behind : List Json) (item : Json) :
    accepts (some (conj (before ++ disj alternatives :: behind))) item =
      accepts (some (disj ((objects alternatives).map fun alternative =>
        conj (before ++ .object alternative :: behind)))) item := by
  have hside : ∀ ms : Fields, (objects (before ++ .object ms :: behind)).all (allHold · item) =
      ((objects before).all (allHold · item) &&
        (allHold ms item && (objects behind).all (allHold · item))) := fun ms => by
    rw [objects_append, objects_cons_object, List.all_append, List.all_cons]
  calc accepts (some (conj (before ++ disj alternatives :: behind))) item
      = ((objects before).all (allHold · item) &&
          ((objects alternatives).any (allHold · item) &&
            (objects behind).all (allHold · item))) := by
        rw [accepts_conj, disj, hside, allHold_disj]
    _ = (objects alternatives).any fun alternative =>
          (objects before).all (allHold · item) &&
            (allHold alternative item && (objects behind).all (allHold · item)) := by
        rw [List.and_any_distrib_right, List.and_any_distrib_left]
    _ = accepts (some (disj ((objects alternatives).map fun alternative =>
          conj (before ++ .object alternative :: behind)))) item := by
        simp only [accepts_disj, conj, objects_map_object, List.any_map, Function.comp_def,
          allHold_conj, hside]

/-- A replacement that makes no difference to an item makes none at any depth. -/
theorem Within.accepts_eq {R : Fields → Fields → Prop} {f g : Fields}
    (keeps : ∀ f g, R f g →
      accepts (some (.object f)) item = accepts (some (.object g)) item)
    (within : Within R f g) :
    accepts (some (.object f)) item = accepts (some (.object g)) item := by
  induction within with
  | here related => exact keeps _ _ related
  | @under f g name front back before behind combinator within ih =>
    simp only [accepts_object] at ih
    simp only [accepts_object, allHold_append, allHold]
    congr 2
    obtain rfl | rfl : name = "$and" ∨ name = "$or" := by simpa using combinator
    · simp only [memberHolds_and, subFilters_array, objects_append, objects_cons_object,
        List.all_append, List.all_cons, ih]
    · simp only [memberHolds_or, subFilters_array, objects_append, objects_cons_object,
        List.any_append, List.any_cons, ih]

/-! ## The laws -/

/-- The laws by which filters may be rewritten, as far as one item can tell. -/
structure Lawful (item : Json) : Prop where
  /-- Striking out the names that shape a result, at every depth, makes no difference. -/
  shaping : ∀ ms, accepts (some (.object (unshaped ms))) item = accepts (some (.object ms)) item
  /-- A filter is the conjunction of its members. -/
  members : ∀ ms, accepts (some (.object ms)) item = true ↔
    ∀ m ∈ ms, accepts (some (.object [m])) item = true
  split : ∀ ms, accepts (some (conj (ms.map fun m => .object [m]))) item =
    accepts (some (.object ms)) item
  /-- Sub-filters of distinct names, wherever they stand, can be put into one object. -/
  merge : ∀ (parts : List Fields) (others subs merged : List Json),
    (Fields.names parts.flatten).Nodup → subs.Perm (parts.map .object ++ others) →
    merged.Perm (.object (Fields.ofList parts.flatten) :: others) →
    accepts (some (conj merged)) item = accepts (some (conj subs)) item
  /-- A conjunction of one object is that object. -/
  single : ∀ ms, accepts (some (conj [.object ms])) item = accepts (some (.object ms)) item
  flatten : ∀ before inner behind, accepts (some (conj (before ++ conj inner :: behind))) item =
    accepts (some (conj (before ++ inner ++ behind))) item
  distribute : ∀ before alternatives behind,
    accepts (some (conj (before ++ disj alternatives :: behind))) item =
      accepts (some (disj ((objects alternatives).map fun alternative =>
        conj (before ++ .object alternative :: behind)))) item
  /-- Without a sub-filter a disjunction holds of nothing, whatever else it is given. -/
  none_of : ∀ operand : Json, subFilters operand = [] →
    accepts (some (.object [("$or", operand)])) item = false
  /-- Without a sub-filter a conjunction holds of everything, whatever else it is given. -/
  all_of : ∀ operand : Json, subFilters operand = [] →
    accepts (some (.object [("$and", operand)])) item = true
  /-- What may be rewritten may be rewritten at any depth. -/
  within : ∀ R : Fields → Fields → Prop,
    (∀ f g, R f g → accepts (some (.object f)) item = accepts (some (.object g)) item) →
    ∀ f g, Within R f g → accepts (some (.object f)) item = accepts (some (.object g)) item

/-- **Filters obey the laws of propositional logic**, whatever is asked of whatever item. -/
theorem lawful (item : Json) : Lawful item where
  shaping ms := allHold_unshaped ms item
  members ms := accepts_iff_members ms item
  split ms := accepts_split ms item
  merge _ _ _ _ distinct hsubs hmerged := accepts_merge distinct hsubs hmerged
  single ms := by
    rw [accepts_conj, objects_cons_object, objects_nil, List.all_cons, List.all_nil, Bool.and_true]
    rfl
  flatten before inner behind := accepts_flatten before inner behind item
  distribute before alternatives behind := accepts_distribute before alternatives behind item
  none_of operand empty := by
    rw [accepts_object, allHold_singleton, memberHolds_or, empty, List.any_nil]
  all_of operand empty := by
    rw [accepts_object, allHold_singleton, memberHolds_and, empty, List.all_nil]
  within _ keeps _ _ within := within.accepts_eq keeps

end LiveQuery.Filter

namespace LiveQuery.Notes

open LiveQuery.Filter

def urgentIdea : Json := .object [("priority", .int 5), ("tag", .string "idea")]

def urgent : Fields := [("priority", .object [("$gt", .int 3)])]

def idea : Fields := [("tag", .string "idea")]

def wantedApart : List Json := [.object idea, .int 7, .object urgent]

def wantedTogether : List Json := [.int 7, .object (Fields.ofList [urgent, idea].flatten)]

/-- Merging the two sub-filters is allowed, also below a disjunction of a longer filter. There is no
disjunction without sub-filters that the idea passes. -/
theorem urgent_idea_wanted :
    (Fields.names [urgent, idea].flatten).Nodup ∧
    accepts (some (conj wantedTogether)) urgentIdea = true ∧
    accepts (some (.object [("$limit", .int 1), ("$or", .array [.int 7, conj wantedTogether])]))
      urgentIdea =
      accepts (some (.object [("$limit", .int 1), ("$or", .array [.int 7, conj wantedApart])]))
        urgentIdea ∧
    accepts (some (.object [("$or", .array [.int 7])])) urgentIdea = false := by
  have hlaws := lawful urgentIdea
  have hdistinct : (Fields.names [urgent, idea].flatten).Nodup := by decide
  have hmerge := hlaws.merge [urgent, idea] [.int 7] wantedApart wantedTogether hdistinct
    (List.perm_append_singleton (Json.object urgent) [.object idea, .int 7]) (.swap _ _ _)
  refine ⟨hdistinct, by decide +kernel, ?_, hlaws.none_of _ rfl⟩
  refine hlaws.within (fun f g => f = [("$and", .array wantedTogether)] ∧
    g = [("$and", .array wantedApart)]) ?_ _ _ ?_
  · rintro f g ⟨rfl, rfl⟩
    exact hmerge
  · exact .under [("$limit", .int 1)] [] [.int 7] [] (by decide) (.here ⟨rfl, rfl⟩)

end LiveQuery.Notes
