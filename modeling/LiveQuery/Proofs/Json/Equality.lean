import LiveQuery.Json.Reader

/-!
# Equal values and the signs of their zeros

Two values are alike if they are equal as values: numbers by value, arrays place by place, and
objects as maps from names to values, whatever order their members stand in (`Alike`). Where names
are sorted at every level, as in every value the library builds, this is the equality that the
library computes (`alike_iff_beq`).

Values that are alike need not be the same: `0.0` and `-0.0` are equal numbers and different
doubles. That is the whole difference: values that are alike are the same as soon as their zeros
have the same signs (`eq_iff_zeroSigns`).
-/

namespace LiveQuery

namespace Fields

variable {ms ns : Fields} {key : String} {v w : Json}

theorem mem_of_get? (found : get? ms key = some v) : (key, v) ∈ ms := by
  induction ms with
  | nil => cases found
  | cons m ms ih =>
    obtain ⟨k, u⟩ := m
    rw [get?_cons] at found
    split at found
    · next h =>
      obtain rfl := Option.some.inj found
      exact h ▸ List.mem_cons_self
    · exact List.mem_cons_of_mem _ (ih found)

theorem lt_of_get? {k : String} {u : Json} (sorted : Sorted ((k, u) :: ms))
    (found : get? ms key = some v) : k < key :=
  (List.pairwise_cons.mp sorted).1 _ (mem_of_get? found)

theorem get?_tail_self {k : String} {u : Json} (sorted : Sorted ((k, u) :: ms)) :
    get? ms k = none := by
  cases found : get? ms k with
  | none => rfl
  | some v => exact absurd (lt_of_get? sorted found) (String.lt_irrefl k)

def SameNames (ms ns : Fields) : Prop := ∀ key, (get? ms key).isSome = (get? ns key).isSome

theorem SameNames.symm (same : SameNames ms ns) : SameNames ns ms := fun key => (same key).symm

theorem SameNames.exists_get? (same : SameNames ms ns) (found : get? ms key = some v) :
    ∃ w, get? ns key = some w := by
  have hsome : (get? ns key).isSome = true := by rw [← same key, found]; rfl
  exact Option.isSome_iff_exists.mp hsome

theorem SameNames.head_le {k l : String} {v w : Json}
    (same : SameNames ((k, v) :: ms) ((l, w) :: ns)) (sorted : Sorted ((l, w) :: ns)) : l ≤ k := by
  obtain ⟨u, hu⟩ := same.exists_get? (show get? ((k, v) :: ms) k = some v by
    rw [get?_cons, if_pos rfl])
  rw [get?_cons] at hu
  split at hu
  · next h => exact h ▸ String.le_refl l
  · exact String.not_lt.mp (String.lt_asymm (lt_of_get? sorted hu))

theorem SameNames.head_tail {k l : String} {v w : Json}
    (same : SameNames ((k, v) :: ms) ((l, w) :: ns)) (hm : Sorted ((k, v) :: ms))
    (hn : Sorted ((l, w) :: ns)) : k = l ∧ SameNames ms ns := by
  obtain rfl : k = l := String.le_antisymm (same.symm.head_le hm) (same.head_le hn)
  refine ⟨rfl, fun key => ?_⟩
  by_cases hkey : k = key
  · subst hkey
    rw [get?_tail_self hm, get?_tail_self hn]
  · have h := same key
    rwa [get?_cons, get?_cons, if_neg hkey, if_neg hkey] at h

end Fields

namespace Json

/-- At every level of the value the names of an object are sorted. -/
inductive Ordered : Json → Prop
  | null : Ordered .null
  | bool (b : Bool) : Ordered (.bool b)
  | number (n : Number) : Ordered (.number n)
  | string (s : String) : Ordered (.string s)
  | array {vs : List Json} (items : ∀ v ∈ vs, Ordered v) : Ordered (.array vs)
  | object {ms : Fields} (sorted : Fields.Sorted ms) (values : ∀ m ∈ ms, Ordered m.2) :
      Ordered (.object ms)

/-- Equality as values: an object is the map from its names to their values. -/
inductive Alike : Json → Json → Prop
  | null : Alike .null .null
  | bool (b : Bool) : Alike (.bool b) (.bool b)
  | number {m n : Number} (same : (m == n) = true) : Alike (.number m) (.number n)
  | string (s : String) : Alike (.string s) (.string s)
  | array {vs ws : List Json} (length : vs.length = ws.length)
      (items : ∀ (i : Nat) v w, vs[i]? = some v → ws[i]? = some w → Alike v w) :
      Alike (.array vs) (.array ws)
  | object {ms ns : Fields} (names : Fields.SameNames ms ns)
      (values : ∀ key v w, Fields.get? ms key = some v → Fields.get? ns key = some w →
        Alike v w) :
      Alike (.object ms) (.object ns)

/-! ## Sorted names at every level -/

theorem Ordered.sorted {ms : Fields} (h : (Json.object ms).Ordered) : Fields.Sorted ms := by
  cases h with
  | object sorted values => exact sorted

theorem Ordered.values {ms : Fields} (h : (Json.object ms).Ordered) : ∀ m ∈ ms, m.2.Ordered := by
  cases h with
  | object sorted values => exact values

theorem Ordered.empty : (Json.object []).Ordered :=
  .object List.Pairwise.nil fun _ hm => absurd hm List.not_mem_nil

theorem Ordered.insert {ms : Fields} {v : Json} (h : (Json.object ms).Ordered) (hv : v.Ordered)
    (key : String) : (Json.object (Fields.insert ms key v)).Ordered := by
  refine .object (Fields.sorted_insert h.sorted key v) fun m hm => ?_
  rcases Fields.mem_insert hm with rfl | hm
  · exact hv
  · exact h.values m hm

theorem Ordered.merge {ms more : Fields} (h : (Json.object ms).Ordered)
    (hmore : ∀ m ∈ more, m.2.Ordered) : (Json.object (Fields.merge ms more)).Ordered := by
  induction more generalizing ms with
  | nil => exact h
  | cons m more ih =>
    obtain ⟨hm, hrest⟩ := List.forall_mem_cons.mp hmore
    exact ih (h.insert hm m.1) hrest

theorem Ordered.filter {ms : Fields} (h : (Json.object ms).Ordered) (p : String × Json → Bool) :
    (Json.object (List.filter p ms)).Ordered :=
  .object (List.Pairwise.filter p h.sorted) fun m hm => h.values m (List.mem_filter.mp hm).1

/-- What has been read at some fuel has sorted names, if what was read before has. -/
structure ReadsOrdered (fuel : Nat) : Prop where
  value : ∀ {cs v rest}, Reader.readValue? fuel cs = some (v, rest) → v.Ordered
  items : ∀ {cs done vs rest}, (∀ v ∈ done, Ordered v) →
    Reader.readItems? fuel cs done = some (vs, rest) → ∀ v ∈ vs, Ordered v
  members : ∀ {cs done ms rest}, (Json.object done).Ordered →
    Reader.readMembers? fuel cs done = some (ms, rest) → (Json.object ms).Ordered

namespace ReadsOrdered

variable {fuel : Nat} {cs rest : List Char}

theorem readValue (ih : ReadsOrdered fuel) {v : Json}
    (h : Reader.readValue? (fuel + 1) cs = some (v, rest)) : v.Ordered := by
  rw [Reader.readValue?] at h
  split at h
  · cases h; exact .null
  · cases h; exact .bool true
  · cases h; exact .bool false
  · obtain ⟨⟨s, tail⟩, -, heq⟩ := Option.map_eq_some_iff.mp h
    cases heq
    exact .string s
  · split at h
    · cases h; exact .array fun _ hv => absurd hv List.not_mem_nil
    · obtain ⟨⟨vs, tail⟩, hread, heq⟩ := Option.map_eq_some_iff.mp h
      cases heq
      exact .array (ih.items (fun _ hv => absurd hv List.not_mem_nil) hread)
  · split at h
    · cases h; exact .empty
    · obtain ⟨⟨ms, tail⟩, hread, heq⟩ := Option.map_eq_some_iff.mp h
      cases heq
      exact ih.members .empty hread
  · obtain ⟨⟨n, tail⟩, -, heq⟩ := Option.map_eq_some_iff.mp h
    cases heq
    exact .number n

theorem readItems (ih : ReadsOrdered fuel) {done vs : List Json} (hdone : ∀ v ∈ done, Ordered v)
    (h : Reader.readItems? (fuel + 1) cs done = some (vs, rest)) : ∀ v ∈ vs, Ordered v := by
  rw [Reader.readItems?] at h
  split at h
  · cases h
  · next v tail hread =>
    have hnext : ∀ u ∈ v :: done, Ordered u := List.forall_mem_cons.mpr ⟨ih.value hread, hdone⟩
    split at h
    · exact ih.items hnext h
    · cases h
      exact fun u hu => hnext u (List.mem_reverse.mp hu)
    · cases h

theorem readMembers (ih : ReadsOrdered fuel) {done ms : Fields}
    (hdone : (Json.object done).Ordered)
    (h : Reader.readMembers? (fuel + 1) cs done = some (ms, rest)) :
    (Json.object ms).Ordered := by
  rw [Reader.readMembers?] at h
  split at h
  · split at h
    · cases h
    · next key _ _ =>
      split at h
      · split at h
        · cases h
        · next v tail hread =>
          have hnext := hdone.insert (ih.value hread) key
          split at h
          · exact ih.members hnext h
          · cases h
            exact hnext
          · cases h
      · cases h
  · cases h

end ReadsOrdered

theorem readsOrdered (fuel : Nat) : ReadsOrdered fuel := by
  induction fuel with
  | zero =>
    constructor
    · intro cs v rest h
      cases h
    · intro cs done vs rest hdone h
      cases h
    · intro cs done ms rest hdone h
      cases h
  | succ fuel ih => exact ⟨ih.readValue, ih.readItems, ih.readMembers⟩

theorem ordered_of_parse? {s : String} {v : Json} (read : parse? s = some v) : v.Ordered := by
  unfold parse? at read
  dsimp only at read
  split at read
  · next u rest hread =>
    split at read
    · obtain rfl := Option.some.inj read
      exact (readsOrdered _).value hread
    · cases read
  · cases read

/-! ## Computed equality -/

theorem beqItems_of_pointwise {vs ws : List Json} (length : vs.length = ws.length)
    (items : ∀ (i : Nat) v w, vs[i]? = some v → ws[i]? = some w → Json.beq v w = true) :
    beqItems vs ws = true := by
  induction vs generalizing ws with
  | nil =>
    cases ws with
    | nil => rfl
    | cons w ws => cases length
  | cons v vs ih =>
    cases ws with
    | nil => cases length
    | cons w ws =>
      have hrest := ih (Nat.succ.inj length) fun i => items (i + 1)
      rw [beqItems, items 0 v w rfl rfl, hrest]
      rfl

theorem beqMembers_of_pointwise {ms ns : Fields} (hm : Fields.Sorted ms) (hn : Fields.Sorted ns)
    (names : Fields.SameNames ms ns)
    (values : ∀ key v w, Fields.get? ms key = some v → Fields.get? ns key = some w →
      Json.beq v w = true) :
    beqMembers ms ns = true := by
  induction ms generalizing ns with
  | nil =>
    cases ns with
    | nil => rfl
    | cons n ns =>
      obtain ⟨l, w⟩ := n
      exact absurd (names l) (by simp [Fields.get?_cons])
  | cons m ms ih =>
    obtain ⟨k, v⟩ := m
    cases ns with
    | nil => exact absurd (names k) (by simp [Fields.get?_cons])
    | cons n ns =>
      obtain ⟨l, w⟩ := n
      obtain ⟨rfl, htail⟩ := names.head_tail hm hn
      have hhead : Json.beq v w = true :=
        values k v w (by rw [Fields.get?_cons, if_pos rfl]) (by rw [Fields.get?_cons, if_pos rfl])
      have hrest : beqMembers ms ns = true := by
        refine ih (List.pairwise_cons.mp hm).2 (List.pairwise_cons.mp hn).2 htail ?_
        intro key u u' hu hu'
        have hkey : k ≠ key := String.ne_of_lt (Fields.lt_of_get? hm hu)
        exact values key u u' (by rw [Fields.get?_cons, if_neg hkey, hu])
          (by rw [Fields.get?_cons, if_neg hkey, hu'])
      rw [beqMembers, hhead, hrest, beq_self_eq_true]
      rfl

theorem beq_of_alike {a b : Json} (alike : Alike a b) (ha : a.Ordered) (hb : b.Ordered) :
    Json.beq a b = true := by
  induction alike with
  | null => rfl
  | bool b => exact beq_self_eq_true b
  | number same => exact same
  | string s => exact beq_self_eq_true s
  | array length items ih =>
    cases ha with
    | array hvs =>
      cases hb with
      | array hws =>
        refine beqItems_of_pointwise length fun i v w hv hw => ?_
        exact ih i v w hv hw (hvs v (List.mem_of_getElem? hv)) (hws w (List.mem_of_getElem? hw))
  | object names values ih =>
    cases ha with
    | object hsorted hms =>
      cases hb with
      | object hsorted' hns =>
        refine beqMembers_of_pointwise hsorted hsorted' names fun key v w hv hw => ?_
        exact ih key v w hv hw (hms _ (Fields.mem_of_get? hv)) (hns _ (Fields.mem_of_get? hw))

theorem getElem?_of_beqItems {vs ws : List Json} (equal : beqItems vs ws = true) :
    vs.length = ws.length ∧
      ∀ (i : Nat) v w, vs[i]? = some v → ws[i]? = some w → Json.beq v w = true := by
  induction vs generalizing ws with
  | nil =>
    cases ws with
    | nil => exact ⟨rfl, fun i v w hv => nomatch hv⟩
    | cons w ws => cases equal
  | cons v vs ih =>
    cases ws with
    | nil => cases equal
    | cons w ws =>
      rw [beqItems, Bool.and_eq_true] at equal
      obtain ⟨hlength, hitems⟩ := ih equal.2
      refine ⟨congrArg Nat.succ hlength, fun i u u' hu hu' => ?_⟩
      cases i with
      | zero =>
        obtain rfl := Option.some.inj hu
        obtain rfl := Option.some.inj hu'
        exact equal.1
      | succ i => exact hitems i u u' hu hu'

theorem get?_of_beqMembers {ms ns : Fields} (equal : beqMembers ms ns = true) :
    Fields.SameNames ms ns ∧
      ∀ key v w, Fields.get? ms key = some v → Fields.get? ns key = some w →
        Json.beq v w = true := by
  induction ms generalizing ns with
  | nil =>
    cases ns with
    | nil => exact ⟨fun key => rfl, fun key v w hv => nomatch hv⟩
    | cons n ns => cases equal
  | cons m ms ih =>
    obtain ⟨k, v⟩ := m
    cases ns with
    | nil => cases equal
    | cons n ns =>
      obtain ⟨l, w⟩ := n
      rw [beqMembers, Bool.and_eq_true, Bool.and_eq_true, beq_iff_eq] at equal
      obtain ⟨⟨rfl, hvalue⟩, hrest⟩ := equal
      obtain ⟨hnames, hvalues⟩ := ih hrest
      refine ⟨fun key => ?_, fun key u u' hu hu' => ?_⟩
      · rw [Fields.get?_cons, Fields.get?_cons]
        split
        · rfl
        · exact hnames key
      · rw [Fields.get?_cons] at hu hu'
        split at hu
        · next h =>
          rw [if_pos h] at hu'
          obtain rfl := Option.some.inj hu
          obtain rfl := Option.some.inj hu'
          exact hvalue
        · next h =>
          rw [if_neg h] at hu'
          exact hvalues key u u' hu hu'

theorem alike_of_beq (a b : Json) (equal : Json.beq a b = true) : Alike a b := by
  match a, b with
  | .null, .null => exact .null
  | .bool x, .bool y =>
    obtain rfl : x = y := beq_iff_eq.mp equal
    exact .bool x
  | .number m, .number n => exact .number equal
  | .string s, .string t =>
    obtain rfl : s = t := beq_iff_eq.mp equal
    exact .string s
  | .array vs, .array ws =>
    obtain ⟨hlength, hitems⟩ := getElem?_of_beqItems equal
    refine .array hlength fun i v w hv hw => ?_
    have hmem := List.mem_of_getElem? hv
    exact alike_of_beq v w (hitems i v w hv hw)
  | .object ms, .object ns =>
    obtain ⟨hnames, hvalues⟩ := get?_of_beqMembers equal
    refine .object hnames fun key v w hv hw => ?_
    have hmem := Fields.mem_of_get? hv
    exact alike_of_beq v w (hvalues key v w hv hw)
termination_by sizeOf a
decreasing_by
  · have hlt := List.sizeOf_lt_of_mem hmem
    simp only [Json.array.sizeOf_spec]
    omega
  · have hlt := List.sizeOf_lt_of_mem hmem
    simp only [Json.object.sizeOf_spec, Prod.mk.sizeOf_spec] at hlt ⊢
    omega

/-- Where names are sorted at every level, the computed equality is equality as values. -/
theorem alike_iff_beq {a b : Json} (ha : a.Ordered) (hb : b.Ordered) :
    Alike a b ↔ Json.beq a b = true :=
  ⟨fun alike => beq_of_alike alike ha hb, alike_of_beq a b⟩

/-! ## Signed zeros -/

mutual

/-- The signs of the zeros among a value's doubles, in the order of the text. -/
def zeroSigns : Json → List Bool
  | .number (.float x) => if x.rank = 0 then [x.negative] else []
  | .array vs => zeroSignsOfItems vs
  | .object ms => zeroSignsOfMembers ms
  | _ => []

def zeroSignsOfItems : List Json → List Bool
  | [] => []
  | v :: vs => zeroSigns v ++ zeroSignsOfItems vs

def zeroSignsOfMembers : List (String × Json) → List Bool
  | [] => []
  | (_, v) :: ms => zeroSigns v ++ zeroSignsOfMembers ms

end

theorem eq_of_place {x y : Binary64} (same : x.place = y.place) :
    x.rank = y.rank ∧ (x.rank ≠ 0 → x = y) := by
  obtain ⟨negative, rank⟩ := x
  obtain ⟨negative', rank'⟩ := y
  simp only [Binary64.place] at same
  have hrank : rank = rank' := by
    split at same <;> split at same <;> omega
  refine ⟨hrank, fun hpos => ?_⟩
  subst hrank
  cases negative <;> cases negative' <;>
    simp only [Bool.false_eq_true, if_true, if_false] at same <;>
    first | rfl | exact absurd same (by dsimp only at hpos; omega)

theorem number_eq_of_zeroSigns {m n : Number} {p q : List Bool} (same : (m == n) = true)
    (signs : zeroSigns (.number m) ++ p = zeroSigns (.number n) ++ q) : m = n ∧ p = q := by
  cases m with
  | int a =>
    cases n with
    | int b =>
      obtain rfl : a = b := beq_iff_eq.mp same
      exact ⟨rfl, signs⟩
    | float y => cases same
  | float x =>
    cases n with
    | int b => cases same
    | float y =>
      obtain ⟨hrank, hsame⟩ := eq_of_place (beq_iff_eq.mp same)
      rw [zeroSigns, zeroSigns, ← hrank] at signs
      split at signs
      · obtain ⟨hsign, hrest⟩ := List.cons.inj signs
        have heq : x = y := by
          cases x
          cases y
          exact congr (congrArg Binary64.mk hsign) hrank
        exact ⟨congrArg Number.float heq, hrest⟩
      · next hpos => exact ⟨congrArg Number.float (hsame hpos), signs⟩

mutual

theorem eq_of_zeroSigns (a b : Json) {p q : List Bool} (equal : Json.beq a b = true)
    (signs : a.zeroSigns ++ p = b.zeroSigns ++ q) : a = b ∧ p = q := by
  match a, b with
  | .null, .null => exact ⟨rfl, signs⟩
  | .bool x, .bool y =>
    obtain rfl : x = y := beq_iff_eq.mp equal
    exact ⟨rfl, signs⟩
  | .number m, .number n =>
    obtain ⟨rfl, hrest⟩ := number_eq_of_zeroSigns equal signs
    exact ⟨rfl, hrest⟩
  | .string s, .string t =>
    obtain rfl : s = t := beq_iff_eq.mp equal
    exact ⟨rfl, signs⟩
  | .array vs, .array ws =>
    obtain ⟨rfl, hrest⟩ := items_eq_of_zeroSigns vs ws equal signs
    exact ⟨rfl, hrest⟩
  | .object ms, .object ns =>
    obtain ⟨rfl, hrest⟩ := members_eq_of_zeroSigns ms ns equal signs
    exact ⟨rfl, hrest⟩

theorem items_eq_of_zeroSigns (vs ws : List Json) {p q : List Bool}
    (equal : beqItems vs ws = true)
    (signs : zeroSignsOfItems vs ++ p = zeroSignsOfItems ws ++ q) : vs = ws ∧ p = q := by
  match vs, ws with
  | [], [] => exact ⟨rfl, signs⟩
  | v :: vs, w :: ws =>
    rw [beqItems, Bool.and_eq_true] at equal
    rw [zeroSignsOfItems, zeroSignsOfItems, List.append_assoc, List.append_assoc] at signs
    obtain ⟨rfl, hsigns⟩ := eq_of_zeroSigns v w equal.1 signs
    obtain ⟨rfl, hrest⟩ := items_eq_of_zeroSigns vs ws equal.2 hsigns
    exact ⟨rfl, hrest⟩

theorem members_eq_of_zeroSigns (ms ns : List (String × Json)) {p q : List Bool}
    (equal : beqMembers ms ns = true)
    (signs : zeroSignsOfMembers ms ++ p = zeroSignsOfMembers ns ++ q) : ms = ns ∧ p = q := by
  match ms, ns with
  | [], [] => exact ⟨rfl, signs⟩
  | (k, v) :: ms, (l, w) :: ns =>
    rw [beqMembers, Bool.and_eq_true, Bool.and_eq_true, beq_iff_eq] at equal
    rw [zeroSignsOfMembers, zeroSignsOfMembers, List.append_assoc, List.append_assoc] at signs
    obtain ⟨⟨rfl, hvalue⟩, hmembers⟩ := equal
    obtain ⟨rfl, hsigns⟩ := eq_of_zeroSigns v w hvalue signs
    obtain ⟨rfl, hrest⟩ := members_eq_of_zeroSigns ms ns hmembers hsigns
    exact ⟨rfl, hrest⟩

end

/-- Values that are alike are the same exactly if their zeros have the same signs. -/
theorem eq_iff_zeroSigns {a b : Json} (alike : Alike a b) (ha : a.Ordered) (hb : b.Ordered) :
    a = b ↔ a.zeroSigns = b.zeroSigns := by
  constructor
  · intro heq
    rw [heq]
  · intro hsigns
    have hsigns' : a.zeroSigns ++ [] = b.zeroSigns ++ [] := by rw [hsigns]
    exact (eq_of_zeroSigns a b (beq_of_alike alike ha hb) hsigns').1

end Json

end LiveQuery
