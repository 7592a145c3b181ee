import LiveQuery.Json.Text
import LiveQuery.Proofs.Json.Shortest
import Mathlib.Data.List.TakeWhile

/-!
# Numerals tell numbers apart

The text of a number determines the number (`Number.text_inj`). A whole number is read back from
its digits. The decimal of a double is read back from its numeral, however that is laid out
(`valueOf_text`), and the shortest decimal determines the double up to its sign, which stands in
front. A double's numeral has a point or an exponent and a whole number's has neither, so the
two kinds never share a text.
-/

namespace LiveQuery

def isNumeral (c : Char) : Bool := c.isDigit || c == '-' || c == '+' || c == '.' || c == 'e'

theorem isNumeral_of_isDigit {c : Char} (digit : c.isDigit = true) : isNumeral c = true := by
  simp [isNumeral, digit]

theorem isDigit_of_mem_toDigits {n : Nat} {c : Char} (mem : c ∈ Nat.toDigits 10 n) :
    c.isDigit = true :=
  Nat.isDigit_of_mem_toDigits (by decide) (by decide) mem

theorem toDigits_injective {m n : Nat} (heq : Nat.toDigits 10 m = Nat.toDigits 10 n) : m = n := by
  rw [← @Nat.ofDigitChars_ten_toDigits m, heq, Nat.ofDigitChars_ten_toDigits]

theorem ne_of_isDigit {c d : Char} (digit : c.isDigit = true) (other : d.isDigit = false) :
    c ≠ d := by
  rintro rfl
  rw [digit] at other
  cases other

/-! ## Reading a numeral -/

def exponentOf : List Char → Int
  | [] => 0
  | sign :: ds => if sign = '-' then -(Nat.ofDigitChars 10 ds 0 : Int) else Nat.ofDigitChars 10 ds 0

/-- The number that a numeral without sign stands for. -/
def valueOf (cs : List Char) : ℚ :=
  let mantissa := cs.takeWhile (· != 'e')
  let fraction := (mantissa.dropWhile (· != '.')).drop 1
  Nat.ofDigitChars 10 (mantissa.takeWhile (· != '.') ++ fraction) 0 *
    10 ^ (exponentOf ((cs.dropWhile (· != 'e')).drop 1) - fraction.length)

section

variable {whole fraction exponent mantissa : List Char}

theorem valueOf_append_exponent (hm : ∀ c ∈ mantissa, (c != 'e') = true) :
    valueOf (mantissa ++ 'e' :: exponent) =
      Nat.ofDigitChars 10
          (mantissa.takeWhile (· != '.') ++ (mantissa.dropWhile (· != '.')).drop 1) 0 *
        10 ^ (exponentOf exponent - ((mantissa.dropWhile (· != '.')).drop 1).length) := by
  unfold valueOf
  rw [List.takeWhile_append_of_pos hm, List.dropWhile_append_of_pos hm]
  simp

theorem valueOf_of_no_exponent (hm : ∀ c ∈ mantissa, (c != 'e') = true) :
    valueOf mantissa =
      Nat.ofDigitChars 10
          (mantissa.takeWhile (· != '.') ++ (mantissa.dropWhile (· != '.')).drop 1) 0 *
        10 ^ (-(((mantissa.dropWhile (· != '.')).drop 1).length : Int)) := by
  have htake : mantissa.takeWhile (· != 'e') = mantissa := List.takeWhile_eq_self_iff.mpr hm
  have hdrop : mantissa.dropWhile (· != 'e') = [] := List.dropWhile_eq_nil_iff.mpr hm
  unfold valueOf
  rw [htake, hdrop]
  simp [exponentOf]

theorem ne_of_digits {ds : List Char} {d : Char} (digits : ∀ c ∈ ds, c.isDigit = true)
    (other : d.isDigit = false) : ∀ c ∈ ds, (c != d) = true :=
  fun c hc => bne_iff_ne.mpr (ne_of_isDigit (digits c hc) other)

theorem valueOf_positional (hw : ∀ c ∈ whole, c.isDigit = true)
    (hf : ∀ c ∈ fraction, c.isDigit = true) :
    valueOf (whole ++ '.' :: fraction) =
      Nat.ofDigitChars 10 (whole ++ fraction) 0 * 10 ^ (-(fraction.length : Int)) := by
  have hpoint := ne_of_digits hw (show '.'.isDigit = false by decide)
  rw [valueOf_of_no_exponent, List.takeWhile_append_of_pos hpoint,
    List.dropWhile_append_of_pos hpoint]
  · simp
  · intro c hc
    rcases List.mem_append.mp hc with hc | hc
    · exact ne_of_digits hw (by decide) c hc
    · rcases List.mem_cons.mp hc with rfl | hc
      · decide
      · exact ne_of_digits hf (by decide) c hc

theorem valueOf_scientific (hw : ∀ c ∈ whole, c.isDigit = true)
    (hf : ∀ c ∈ fraction, c.isDigit = true) :
    valueOf (whole ++ (if fraction.isEmpty then [] else '.' :: fraction) ++ 'e' :: exponent) =
      Nat.ofDigitChars 10 (whole ++ fraction) 0 *
        10 ^ (exponentOf exponent - fraction.length) := by
  have hpoint := ne_of_digits hw (show '.'.isDigit = false by decide)
  have hexp := ne_of_digits hw (show 'e'.isDigit = false by decide)
  cases fraction with
  | nil =>
    simp only [List.isEmpty_nil, if_true, List.append_nil]
    rw [valueOf_append_exponent hexp, List.takeWhile_eq_self_iff.mpr hpoint,
      List.dropWhile_eq_nil_iff.mpr hpoint]
    simp
  | cons d ds =>
    simp only [List.isEmpty_cons, Bool.false_eq_true, if_false]
    rw [valueOf_append_exponent, List.takeWhile_append_of_pos hpoint,
      List.dropWhile_append_of_pos hpoint]
    · simp
    · intro c hc
      rcases List.mem_append.mp hc with hc | hc
      · exact hexp c hc
      · rcases List.mem_cons.mp hc with rfl | hc
        · decide
        · exact ne_of_digits hf (by decide) c hc

end

/-! ## The numeral of a decimal -/

theorem isDigit_of_mem_zeros {n : Nat} : ∀ c ∈ List.replicate n '0', c.isDigit = true := by
  intro c hc
  rw [List.eq_of_mem_replicate hc]
  decide

theorem isDigit_of_mem_zero : ∀ c ∈ ['0'], c.isDigit = true := @isDigit_of_mem_zeros 1

theorem digits_append {as bs : List Char} (ha : ∀ c ∈ as, c.isDigit = true)
    (hb : ∀ c ∈ bs, c.isDigit = true) : ∀ c ∈ as ++ bs, c.isDigit = true :=
  fun c hc => (List.mem_append.mp hc).elim (ha c) (hb c)

theorem ofDigitChars_zeros_append (n : Nat) (ds : List Char) :
    Nat.ofDigitChars 10 (List.replicate n '0' ++ ds) 0 = Nat.ofDigitChars 10 ds 0 := by
  rw [Nat.ofDigitChars_append, Nat.ofDigitChars_replicate_zero, Nat.mul_zero]

theorem ofDigitChars_append_zeros (ds : List Char) (n : Nat) :
    Nat.ofDigitChars 10 (ds ++ List.replicate n '0') 0 = 10 ^ n * Nat.ofDigitChars 10 ds 0 := by
  rw [Nat.ofDigitChars_append, Nat.ofDigitChars_replicate_zero]

section

variable {ds : List Char}

theorem valueOf_small (hds : ∀ c ∈ ds, c.isDigit = true) (n : Nat) :
    valueOf ('0' :: '.' :: (List.replicate n '0' ++ ds)) =
      Nat.ofDigitChars 10 ds 0 * 10 ^ (-((n : Int) + ds.length)) := by
  have hzero : '0' :: '.' :: (List.replicate n '0' ++ ds) =
      List.replicate 1 '0' ++ '.' :: (List.replicate n '0' ++ ds) := rfl
  rw [hzero, valueOf_positional isDigit_of_mem_zeros (digits_append isDigit_of_mem_zeros hds),
    ofDigitChars_zeros_append, ofDigitChars_zeros_append, List.length_append,
    List.length_replicate]
  push_cast
  rfl

theorem valueOf_large (hds : ∀ c ∈ ds, c.isDigit = true) (k : Nat) :
    valueOf (ds.take k ++ List.replicate (k - ds.length) '0' ++
        '.' :: (if (ds.drop k).isEmpty then ['0'] else ds.drop k)) =
      Nat.ofDigitChars 10 ds 0 * 10 ^ ((k : Int) - ds.length) := by
  have htake : ∀ c ∈ ds.take k, c.isDigit = true := fun c hc => hds c (List.mem_of_mem_take hc)
  have hdrop : ∀ c ∈ ds.drop k, c.isDigit = true := fun c hc => hds c (List.mem_of_mem_drop hc)
  by_cases hrest : ds.length ≤ k
  · have hten : (10 : ℚ) ≠ 0 := by norm_num
    rw [List.take_of_length_le hrest, List.drop_of_length_le hrest, List.isEmpty_nil, if_pos rfl,
      valueOf_positional (digits_append hds isDigit_of_mem_zeros) isDigit_of_mem_zero,
      List.append_assoc,
      show ['0'] = List.replicate 1 '0' from rfl, List.replicate_append_replicate,
      ofDigitChars_append_zeros, List.length_replicate]
    have hexp : (k : Int) - ds.length = ((k - ds.length + 1 : Nat) : Int) + -((1 : Nat) : Int) := by
      omega
    rw [hexp, zpow_add₀ hten, zpow_natCast]
    push_cast
    ring
  · have hlt : k < ds.length := Nat.lt_of_not_le hrest
    have hne : (ds.drop k).isEmpty = false := by
      rw [List.isEmpty_eq_false_iff, ne_eq, List.drop_eq_nil_iff]
      exact hrest
    rw [hne, Nat.sub_eq_zero_of_le hlt.le, List.replicate_zero, List.append_nil]
    simp only [Bool.false_eq_true, if_false]
    rw [valueOf_positional htake hdrop, List.take_append_drop, List.length_drop]
    congr 2
    omega

theorem valueOf_exponential (hds : ∀ c ∈ ds, c.isDigit = true) (pos : 0 < ds.length)
    (lead : Int) :
    valueOf (ds.take 1 ++ (if (ds.drop 1).isEmpty then [] else '.' :: ds.drop 1) ++
        'e' :: (if lead < 0 then '-' else '+') :: Nat.toDigits 10 lead.natAbs) =
      Nat.ofDigitChars 10 ds 0 * 10 ^ (lead + 1 - ds.length) := by
  have htake : ∀ c ∈ ds.take 1, c.isDigit = true := fun c hc => hds c (List.mem_of_mem_take hc)
  have hdrop : ∀ c ∈ ds.drop 1, c.isDigit = true := fun c hc => hds c (List.mem_of_mem_drop hc)
  have hexp : exponentOf ((if lead < 0 then '-' else '+') :: Nat.toDigits 10 lead.natAbs) =
      lead := by
    simp only [exponentOf, Nat.ofDigitChars_ten_toDigits]
    by_cases hneg : lead < 0
    · rw [if_pos hneg, if_pos rfl]
      omega
    · rw [if_neg hneg, if_neg (by decide)]
      omega
  rw [valueOf_scientific htake hdrop, List.take_append_drop, hexp, List.length_drop]
  congr 2
  omega

end

namespace Decimal

variable (layout : DecimalLayout) (d : Decimal)

/-- However a decimal is laid out, its text is a numeral for its value. -/
theorem valueOf_text : valueOf (d.text layout) = d.value := by
  have hds : ∀ c ∈ Nat.toDigits 10 d.digits, c.isDigit = true := fun c => isDigit_of_mem_toDigits
  have hpos : 0 < (Nat.toDigits 10 d.digits).length := Nat.length_toDigits_pos
  have hvalue : d.value = Nat.ofDigitChars 10 (Nat.toDigits 10 d.digits) 0 * 10 ^ d.exponent := by
    rw [Nat.ofDigitChars_ten_toDigits]
    rfl
  unfold text
  dsimp only
  split
  · next hzero =>
    have htext := valueOf_positional isDigit_of_mem_zero isDigit_of_mem_zero
    simpa [value, hzero, Nat.ofDigitChars] using htext
  · rw [hvalue]
    split
    · split
      · next hneg =>
        rw [valueOf_small hds]
        congr 2
        omega
      · next hnonneg =>
        rw [valueOf_large hds]
        congr 2
        omega
    · rw [valueOf_exponential hds hpos]
      congr 2
      omega

theorem exists_text_eq_cons : ∃ c cs, d.text layout = c :: cs ∧ c.isDigit = true := by
  have hds : ∀ c ∈ Nat.toDigits 10 d.digits, c.isDigit = true := fun c => isDigit_of_mem_toDigits
  obtain ⟨c, cs, hcs⟩ := List.exists_cons_of_ne_nil (@Nat.toDigits_ne_nil d.digits 10)
  have hc : c.isDigit = true := hds c (hcs ▸ List.mem_cons_self)
  unfold text
  dsimp only
  rw [hcs]
  split
  · exact ⟨_, _, rfl, by decide⟩
  · split
    · split
      · exact ⟨_, _, rfl, by decide⟩
      · exact ⟨c, _, rfl, hc⟩
    · exact ⟨c, _, rfl, hc⟩

theorem point_or_exponent_mem_text : '.' ∈ d.text layout ∨ 'e' ∈ d.text layout := by
  unfold text
  dsimp only
  split
  · exact .inl (by simp)
  · split
    · split
      · exact .inl (by simp)
      · exact .inl (List.mem_append_right _ List.mem_cons_self)
    · exact .inr (List.mem_append_right _ List.mem_cons_self)

theorem isNumeral_of_mem_text : ∀ c ∈ d.text layout, isNumeral c = true := by
  have hdigits : ∀ n, ∀ c ∈ Nat.toDigits 10 n, isNumeral c = true :=
    fun n c hc => isNumeral_of_isDigit (isDigit_of_mem_toDigits hc)
  have htake : ∀ n, ∀ c ∈ (Nat.toDigits 10 d.digits).take n, isNumeral c = true :=
    fun n c hc => hdigits _ c (List.mem_of_mem_take hc)
  have hdrop : ∀ n, ∀ c ∈ (Nat.toDigits 10 d.digits).drop n, isNumeral c = true :=
    fun n c hc => hdigits _ c (List.mem_of_mem_drop hc)
  have hzeros : ∀ n, ∀ c ∈ List.replicate n '0', isNumeral c = true :=
    fun n c hc => isNumeral_of_isDigit (isDigit_of_mem_zeros c hc)
  have hzero : ∀ c ∈ ['0'], isNumeral c = true := hzeros 1
  unfold text
  dsimp only
  split
  · exact List.forall_mem_cons.mpr ⟨by decide, List.forall_mem_cons.mpr ⟨by decide, hzero⟩⟩
  · split
    · split
      · exact List.forall_mem_cons.mpr ⟨by decide, List.forall_mem_cons.mpr ⟨by decide,
          List.forall_mem_append.mpr ⟨hzeros _, hdigits _⟩⟩⟩
      · refine List.forall_mem_append.mpr ⟨List.forall_mem_append.mpr ⟨htake _, hzeros _⟩,
          List.forall_mem_cons.mpr ⟨by decide, ?_⟩⟩
        split
        · exact hzero
        · exact hdrop _
    · refine List.forall_mem_append.mpr ⟨List.forall_mem_append.mpr ⟨htake _, ?_⟩,
        List.forall_mem_cons.mpr ⟨by decide, List.forall_mem_cons.mpr ⟨?_, hdigits _⟩⟩⟩
      · split
        · exact fun c hc => absurd hc List.not_mem_nil
        · exact List.forall_mem_cons.mpr ⟨by decide, hdrop _⟩
      · split <;> decide

end Decimal

/-! ## The numeral of a number -/

theorem ne_minus_of_isDigit {c : Char} (digit : c.isDigit = true) : c ≠ '-' :=
  ne_of_isDigit digit (by decide)

theorem signed_inj {s t : Bool} {as bs : List Char}
    (ha : ∃ c cs, as = c :: cs ∧ c.isDigit = true) (hb : ∃ c cs, bs = c :: cs ∧ c.isDigit = true)
    (heq : (if s then '-' :: as else as) = if t then '-' :: bs else bs) : s = t ∧ as = bs := by
  obtain ⟨c, cs, rfl, hc⟩ := ha
  obtain ⟨d, ds, rfl, hd⟩ := hb
  cases s <;> cases t
  · exact ⟨rfl, heq⟩
  · exact absurd (List.cons.inj heq).1 (ne_minus_of_isDigit hc)
  · exact absurd (List.cons.inj heq).1.symm (ne_minus_of_isDigit hd)
  · exact ⟨rfl, (List.cons.inj heq).2⟩

theorem exists_toDigits_eq_cons (n : Nat) :
    ∃ c cs, Nat.toDigits 10 n = c :: cs ∧ c.isDigit = true := by
  obtain ⟨c, cs, hcs⟩ := List.exists_cons_of_ne_nil (@Nat.toDigits_ne_nil n 10)
  have hc : c ∈ Nat.toDigits 10 n := hcs ▸ List.mem_cons_self
  exact ⟨c, cs, hcs, isDigit_of_mem_toDigits hc⟩

theorem intText_eq (n : Int) :
    intText n = if decide (n < 0) then '-' :: Nat.toDigits 10 n.natAbs
      else Nat.toDigits 10 n.natAbs := by
  simp only [intText, decide_eq_true_eq]

theorem intText_inj {m n : Int} (heq : intText m = intText n) : m = n := by
  rw [intText_eq, intText_eq] at heq
  obtain ⟨hsign, hdigits⟩ :=
    signed_inj (exists_toDigits_eq_cons _) (exists_toDigits_eq_cons _) heq
  have hnat := toDigits_injective hdigits
  have hiff := decide_eq_decide.mp hsign
  omega

/-- The text of a double determines the double, with the sign of a zero. -/
theorem Binary64.text_inj {x y : Binary64} (heq : x.text = y.text) : x = y := by
  obtain ⟨hsign, hbody⟩ := signed_inj (Decimal.exists_text_eq_cons _ _)
    (Decimal.exists_text_eq_cons _ _) heq
  have hvalue : x.shortest.value = y.shortest.value := by
    rw [← Decimal.valueOf_text, hbody, Decimal.valueOf_text]
  have hrank := rank_eq_of_value_shortest hvalue
  cases x
  cases y
  exact congr (congrArg Binary64.mk hsign) hrank

theorem not_mem_intText {c : Char} (digit : c.isDigit = false) (minus : c ≠ '-') (n : Int) :
    c ∉ intText n := by
  have hdigits : c ∉ Nat.toDigits 10 n.natAbs :=
    fun hc => ne_of_isDigit (isDigit_of_mem_toDigits hc) digit rfl
  unfold intText
  split
  · exact fun hc => (List.mem_cons.mp hc).elim minus hdigits
  · exact hdigits

theorem mem_text_of_mem_shortest {x : Binary64} {c : Char}
    (mem : c ∈ x.shortest.text DecimalLayout.json) : c ∈ x.text := by
  unfold Binary64.text
  dsimp only
  split
  · exact List.mem_cons_of_mem _ mem
  · exact mem

theorem intText_ne_text (n : Int) (x : Binary64) : intText n ≠ x.text := by
  intro heq
  rcases Decimal.point_or_exponent_mem_text DecimalLayout.json x.shortest with hmem | hmem
  · exact not_mem_intText (by decide) (by decide) n (heq ▸ mem_text_of_mem_shortest hmem)
  · exact not_mem_intText (by decide) (by decide) n (heq ▸ mem_text_of_mem_shortest hmem)

namespace Number

/-- The text of a number determines the number. -/
theorem text_inj {m n : Number} (heq : m.text = n.text) : m = n := by
  cases m with
  | int a =>
    cases n with
    | int b => exact congrArg Number.int (intText_inj heq)
    | float y => exact absurd heq (intText_ne_text a y)
  | float x =>
    cases n with
    | int b => exact absurd heq.symm (intText_ne_text b x)
    | float y => exact congrArg Number.float (Binary64.text_inj heq)

theorem exists_text_eq_cons (n : Number) :
    ∃ c cs, n.text = c :: cs ∧ ∀ d ∈ c :: cs, isNumeral d = true := by
  have hsigned : ∀ (s : Bool) (as : List Char), (∃ c cs, as = c :: cs ∧ c.isDigit = true) →
      (∀ d ∈ as, isNumeral d = true) →
      ∃ c cs, (if s then '-' :: as else as) = c :: cs ∧ ∀ d ∈ c :: cs, isNumeral d = true := by
    rintro s as ⟨c, cs, rfl, -⟩ hall
    cases s
    · exact ⟨c, cs, rfl, hall⟩
    · exact ⟨'-', c :: cs, rfl, List.forall_mem_cons.mpr ⟨by decide, hall⟩⟩
  cases n with
  | int a =>
    have hdigits : ∀ d ∈ Nat.toDigits 10 a.natAbs, isNumeral d = true :=
      fun d hd => isNumeral_of_isDigit (isDigit_of_mem_toDigits hd)
    obtain ⟨c, cs, hcs, hall⟩ := hsigned (a < 0) _ (exists_toDigits_eq_cons a.natAbs) hdigits
    exact ⟨c, cs, (intText_eq a).trans hcs, hall⟩
  | float x =>
    exact hsigned x.negative _ (Decimal.exists_text_eq_cons DecimalLayout.json x.shortest)
      (Decimal.isNumeral_of_mem_text _ _)

end Number

end LiveQuery
