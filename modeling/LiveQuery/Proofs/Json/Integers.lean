import LiveQuery.Json.Binary64
import Mathlib.Order.Compare
import Mathlib.Algebra.Order.Ring.Nat
import Mathlib.Tactic.Ring

/-!
# Integers among the doubles

Numbers are compared by the doubles nearest to them. Said without doubles, an integer is first
rounded to the nearest multiple of a power of two, its `spacing`, which leaves it 53 binary
digits; the order of the doubles is the order of the integers so rounded (`compare_ofInt_eq`). This
never turns the order of two integers round (`nearestInt_mono`), but integers that are closer
than the spacing may become equal. Up to `2 ^ 53` nothing is rounded (`nearestInt_of_small`), so
there the order of the doubles is the order of the integers.

The rank of an integer is a place in one of many blocks of `2 ^ 52` ranks each, one block for each
binary logarithm, and within a block ranks stand at even distances (`rankOfRatio_one`).
-/

namespace LiveQuery.Binary64

/-- The distance of neighbouring doubles from the greatest power of two that is at most `n`, or `1`
where every integer is a double. -/
def spacing (n : Nat) : Nat := 1 <<< (n.log2 - 52)

/-- The double nearest to `n`, of two nearest the one with an even significand. -/
def nearest (n : Nat) : Nat := roundHalfEven n (spacing n) * spacing n

/-- The double nearest to an integer. -/
def nearestInt (n : Int) : Int := if n < 0 then -(nearest n.natAbs : Int) else nearest n.natAbs

variable {n num den : Nat}

theorem spacing_eq (n : Nat) : spacing n = 2 ^ (n.log2 - 52) := Nat.one_shiftLeft _

theorem spacing_pos (n : Nat) : 0 < spacing n := spacing_eq n ▸ Nat.two_pow_pos _

theorem spacing_of_small (log : n.log2 ≤ 52) : spacing n = 1 := by
  rw [spacing_eq, Nat.sub_eq_zero_of_le log]
  rfl

/-! ## Rounding a quotient -/

theorem roundHalfEven_one (n : Nat) : roundHalfEven n 1 = n := by
  simp [roundHalfEven, Nat.mod_one]

theorem le_roundHalfEven (num den : Nat) : num / den ≤ roundHalfEven num den := by
  unfold roundHalfEven
  dsimp only
  split <;> omega

theorem roundHalfEven_le (num den : Nat) : roundHalfEven num den ≤ num / den + 1 := by
  unfold roundHalfEven
  dsimp only
  split <;> omega

theorem roundHalfEven_mono {a b : Nat} (le : a ≤ b) :
    roundHalfEven a den ≤ roundHalfEven b den := by
  have hdiv : a / den ≤ b / den := Nat.div_le_div_right le
  rcases Nat.lt_or_eq_of_le hdiv with hlt | heq
  · have hnext : a / den + 1 ≤ b / den := hlt
    exact (roundHalfEven_le a den).trans (hnext.trans (le_roundHalfEven b den))
  · have hmod : a % den ≤ b % den := by
      have ha := Nat.div_add_mod a den
      have hb := Nat.div_add_mod b den
      rw [heq] at ha
      omega
    unfold roundHalfEven
    dsimp only
    rw [heq]
    split <;> split <;> omega

theorem roundHalfEven_near (num : Nat) (pos : 0 < den) :
    2 * num ≤ 2 * (roundHalfEven num den * den) + den ∧
      2 * (roundHalfEven num den * den) ≤ 2 * num + den := by
  have hnum := Nat.div_add_mod' num den
  have hmod := Nat.mod_lt num pos
  unfold roundHalfEven
  dsimp only
  split
  · omega
  · rw [Nat.add_mul, Nat.one_mul]
    omega

/-! ## The nearest double of a natural number -/

theorem nearest_of_small (log : n.log2 ≤ 52) : nearest n = n := by
  rw [nearest, spacing_of_small log, roundHalfEven_one, Nat.mul_one]

/-- Rounding stays between the powers of two around a number. -/
theorem nearest_mem (pos : 0 < n) : 2 ^ n.log2 ≤ nearest n ∧ nearest n ≤ 2 ^ (n.log2 + 1) := by
  have hlow : 2 ^ n.log2 ≤ n := Nat.log2_self_le (Nat.pos_iff_ne_zero.mp pos)
  have hhigh : n < 2 ^ (n.log2 + 1) := Nat.lt_log2_self
  rcases Nat.le_total n.log2 52 with hlog | hlog
  · rw [nearest_of_small hlog]
    exact ⟨hlow, Nat.le_of_lt hhigh⟩
  · have hlog' : n.log2 - 52 + 52 = n.log2 := by omega
    have hpow : 2 ^ n.log2 = 2 ^ 52 * spacing n := by
      rw [spacing_eq, ← pow_add, Nat.add_comm, hlog']
    have hpow' : 2 ^ (n.log2 + 1) = 2 ^ 53 * spacing n := by
      rw [pow_succ, hpow]
      omega
    have hdivLow : 2 ^ 52 ≤ n / spacing n :=
      (Nat.le_div_iff_mul_le (spacing_pos n)).mpr (hpow ▸ hlow)
    have hdivHigh : n / spacing n < 2 ^ 53 :=
      (Nat.div_lt_iff_lt_mul (spacing_pos n)).mpr (hpow' ▸ hhigh)
    unfold nearest
    rw [hpow, hpow']
    exact ⟨Nat.mul_le_mul_right _ (hdivLow.trans (le_roundHalfEven n _)),
      Nat.mul_le_mul_right _ ((roundHalfEven_le n _).trans hdivHigh)⟩

theorem nearest_pos (pos : 0 < n) : 0 < nearest n :=
  Nat.lt_of_lt_of_le (Nat.two_pow_pos _) (nearest_mem pos).1

theorem log2_mono {a b : Nat} (le : a ≤ b) : a.log2 ≤ b.log2 := by
  rcases Nat.eq_zero_or_pos a with rfl | pos
  · exact Nat.zero_le _
  · have hlow : 2 ^ a.log2 ≤ a := Nat.log2_self_le (Nat.pos_iff_ne_zero.mp pos)
    have hne : b ≠ 0 := by omega
    exact (Nat.le_log2 hne).mpr (hlow.trans le)

theorem nearest_mono {a b : Nat} (le : a ≤ b) : nearest a ≤ nearest b := by
  rcases Nat.eq_zero_or_pos a with rfl | pos
  · exact Nat.zero_le _
  · rcases Nat.lt_or_eq_of_le (log2_mono le) with hlt | heq
    · have hpow : 2 ^ (a.log2 + 1) ≤ 2 ^ b.log2 := Nat.pow_le_pow_right (by decide) hlt
      exact (nearest_mem pos).2.trans (hpow.trans (nearest_mem (Nat.lt_of_lt_of_le pos le)).1)
    · have hspacing : spacing a = spacing b := by rw [spacing_eq, spacing_eq, heq]
      unfold nearest
      rw [hspacing]
      exact Nat.mul_le_mul_right _ (roundHalfEven_mono le)

theorem nearest_near (n : Nat) :
    2 * n ≤ 2 * nearest n + spacing n ∧ 2 * nearest n ≤ 2 * n + spacing n :=
  roundHalfEven_near n (spacing_pos n)

theorem spacing_mono {a b : Nat} (le : a ≤ b) : spacing a ≤ spacing b := by
  rw [spacing_eq, spacing_eq]
  exact Nat.pow_le_pow_right (by decide) (Nat.sub_le_sub_right (log2_mono le) 52)

theorem spacing_le (small : n < 2 ^ 64) : spacing n ≤ 2048 := by
  have htop : Nat.log2 (2 ^ 64 - 1) = 63 := by decide +kernel
  have hlog := log2_mono (show n ≤ 2 ^ 64 - 1 by omega)
  rw [spacing_eq]
  exact Nat.pow_le_pow_right (show 0 < 2 by decide) (show n.log2 - 52 ≤ 11 by omega)

/-! ## The rank of a natural number -/

theorem scaled_one_neg {shift : Nat} : scaled n 1 (-(shift : Int)) = (n * 2 ^ shift, 1) := by
  unfold scaled
  cases shift with
  | zero => simp
  | succ shift =>
    have hneg : ¬0 ≤ -((shift + 1 : Nat) : Int) := by omega
    rw [if_neg hneg, Int.neg_neg, Int.toNat_natCast, Nat.shiftLeft_eq]

theorem scaled_one_nat {shift : Nat} : scaled n 1 (shift : Int) = (n, 2 ^ shift) := by
  unfold scaled
  rw [if_pos (Int.natCast_nonneg shift), Int.toNat_natCast, Nat.one_shiftLeft]

theorem le_div_scaled (pos : 0 < n) :
    2 ^ 53 ≤ (scaled n 1 ((n.log2 : Int) - 53)).1 / (scaled n 1 ((n.log2 : Int) - 53)).2 := by
  have hlow : 2 ^ n.log2 ≤ n := Nat.log2_self_le (Nat.pos_iff_ne_zero.mp pos)
  rcases Nat.le_total n.log2 53 with hlog | hlog
  · have hshift : (n.log2 : Int) - 53 = -((53 - n.log2 : Nat) : Int) := by omega
    have hpow : 2 ^ 53 = 2 ^ n.log2 * 2 ^ (53 - n.log2) := by
      rw [← pow_add]
      congr 1
      omega
    rw [hshift, scaled_one_neg]
    dsimp only
    rw [Nat.div_one, hpow]
    exact Nat.mul_le_mul_right _ hlow
  · have hshift : (n.log2 : Int) - 53 = ((n.log2 - 53 : Nat) : Int) := by omega
    have hpow : 2 ^ n.log2 = 2 ^ 53 * 2 ^ (n.log2 - 53) := by
      rw [← pow_add]
      congr 1
      omega
    rw [hshift, scaled_one_nat]
    exact (Nat.le_div_iff_mul_le (Nat.two_pow_pos _)).mpr (hpow ▸ hlow)

theorem exponentOfRatio_one (pos : 0 < n) : exponentOfRatio n 1 = (n.log2 : Int) - 52 := by
  have hone : (n.log2 : Int) - (Nat.log2 1 : Nat) - 53 = (n.log2 : Int) - 53 := by
    have hlog : Nat.log2 1 = 0 := by decide
    omega
  have hfull := le_div_scaled pos
  unfold exponentOfRatio
  dsimp only
  rw [hone, if_neg (by unfold firstNormal; omega)]
  omega

theorem rankOfRatio_one (pos : 0 < n) :
    ∃ m l, rankOfRatio n 1 = m + (l + 1022) * 2 ^ 52 ∧ 2 ^ 52 ≤ m ∧ m < 2 ^ 53 ∧
      m * 2 ^ l = nearest n * 2 ^ 52 := by
  obtain ⟨hlow, hhigh⟩ := nearest_mem pos
  have hrank : ∃ m, rankOfRatio n 1 = m + (n.log2 + 1022) * 2 ^ 52 ∧
      m * 2 ^ n.log2 = nearest n * 2 ^ 52 := by
    have hblock : ((n.log2 : Int) - 52 + 1074).toNat = n.log2 + 1022 := by omega
    unfold rankOfRatio
    rw [if_neg (Nat.pos_iff_ne_zero.mp pos), exponentOfRatio_one pos]
    dsimp only
    rw [hblock]
    refine ⟨_, rfl, ?_⟩
    rcases Nat.le_total n.log2 52 with hlog | hlog
    · have hshift : (n.log2 : Int) - 52 = -((52 - n.log2 : Nat) : Int) := by omega
      rw [hshift, scaled_one_neg, roundHalfEven_one, nearest_of_small hlog, Nat.mul_assoc,
        ← pow_add, Nat.sub_add_cancel hlog]
    · have hshift : (n.log2 : Int) - 52 = ((n.log2 - 52 : Nat) : Int) := by omega
      rw [hshift, scaled_one_nat, nearest, spacing_eq, Nat.mul_assoc, ← pow_add,
        Nat.sub_add_cancel hlog]
  obtain ⟨m, hrank, hvalue⟩ := hrank
  have hpos : 0 < 2 ^ n.log2 := Nat.two_pow_pos _
  have hmlow : 2 ^ 52 ≤ m := by
    refine Nat.le_of_mul_le_mul_right ?_ hpos
    rw [hvalue, Nat.mul_comm]
    exact Nat.mul_le_mul_right _ hlow
  have hmhigh : m ≤ 2 ^ 53 := by
    refine Nat.le_of_mul_le_mul_right ?_ hpos
    calc m * 2 ^ n.log2 = nearest n * 2 ^ 52 := hvalue
      _ ≤ 2 ^ (n.log2 + 1) * 2 ^ 52 := Nat.mul_le_mul_right _ hhigh
      _ = 2 ^ 53 * 2 ^ n.log2 := by ring
  rcases Nat.lt_or_eq_of_le hmhigh with hlt | heq
  · exact ⟨m, n.log2, hrank, hmlow, hlt, hvalue⟩
  · refine ⟨2 ^ 52, n.log2 + 1, ?_, Nat.le_refl _, by decide, ?_⟩
    · rw [hrank, heq]
      omega
    · rw [← hvalue, heq]
      ring

/-- Places in blocks are ordered as the numbers are that they stand for. -/
theorem block_lt_iff {m k l j : Nat} (hm : 2 ^ 52 ≤ m) (hm' : m < 2 ^ 53) (hk : 2 ^ 52 ≤ k)
    (hk' : k < 2 ^ 53) :
    m + (l + 1022) * 2 ^ 52 < k + (j + 1022) * 2 ^ 52 ↔ m * 2 ^ l < k * 2 ^ j := by
  have hbelow : ∀ {m k l j : Nat}, m < 2 ^ 53 → 2 ^ 52 ≤ k → l < j → m * 2 ^ l < k * 2 ^ j := by
    intro m k l j hm hk hlt
    calc m * 2 ^ l < 2 ^ 53 * 2 ^ l := (Nat.mul_lt_mul_right (Nat.two_pow_pos l)).mpr hm
      _ = 2 ^ 52 * 2 ^ (l + 1) := by ring
      _ ≤ 2 ^ 52 * 2 ^ j := Nat.mul_le_mul_left _ (Nat.pow_le_pow_right (by decide) hlt)
      _ ≤ k * 2 ^ j := Nat.mul_le_mul_right _ hk
  rcases Nat.lt_trichotomy l j with hlt | rfl | hgt
  · have hvalue := hbelow hm' hk hlt
    omega
  · have hvalue : m * 2 ^ l < k * 2 ^ l ↔ m < k := Nat.mul_lt_mul_right (Nat.two_pow_pos l)
    omega
  · have hvalue := hbelow hk' hm hgt
    omega

theorem rankOfRatio_lt_iff (a b : Nat) :
    rankOfRatio a 1 < rankOfRatio b 1 ↔ nearest a < nearest b := by
  have hzero : rankOfRatio 0 1 = 0 := rfl
  have hzero' : nearest 0 = 0 := nearest_of_small (by decide)
  rcases Nat.eq_zero_or_pos b with rfl | hb
  · rw [hzero, hzero']
    omega
  · obtain ⟨k, j, hrank, hk, hk', hvalue⟩ := rankOfRatio_one hb
    rcases Nat.eq_zero_or_pos a with rfl | ha
    · have hpos := nearest_pos hb
      rw [hzero, hzero', hrank]
      omega
    · obtain ⟨m, l, hrank', hm, hm', hvalue'⟩ := rankOfRatio_one ha
      rw [hrank, hrank', block_lt_iff hm hm' hk hk', hvalue, hvalue']
      omega

/-! ## Integers -/

theorem nearestInt_of_nonneg {a : Int} (h : 0 ≤ a) : nearestInt a = nearest a.natAbs :=
  if_neg (Int.not_lt.mpr h)

theorem nearestInt_of_neg {a : Int} (h : a < 0) : nearestInt a = -(nearest a.natAbs : Int) :=
  if_pos h

theorem place_ofInt_of_nonneg {a : Int} (h : 0 ≤ a) :
    (ofInt a).place = rankOfRatio a.natAbs 1 := by
  have hneg : ¬a < 0 := Int.not_lt.mpr h
  simp [place, ofInt, hneg]

theorem place_ofInt_of_neg {a : Int} (h : a < 0) :
    (ofInt a).place = -(rankOfRatio a.natAbs 1 : Int) := by
  simp [place, ofInt, h]

theorem place_ofInt_lt_iff (a b : Int) :
    (ofInt a).place < (ofInt b).place ↔ nearestInt a < nearestInt b := by
  have hrank := rankOfRatio_lt_iff a.natAbs b.natAbs
  have hrank' := rankOfRatio_lt_iff b.natAbs a.natAbs
  have hpos : ∀ {c : Int}, c < 0 → 0 < nearest c.natAbs := fun h => nearest_pos (by omega)
  have hpos' : ∀ {c : Int}, c < 0 → 0 < rankOfRatio c.natAbs 1 := fun {c} h =>
    Nat.lt_of_le_of_lt (Nat.zero_le _) ((rankOfRatio_lt_iff 0 c.natAbs).mpr (hpos h))
  rcases lt_or_ge a 0 with ha | ha <;> rcases lt_or_ge b 0 with hb | hb
  · rw [place_ofInt_of_neg ha, place_ofInt_of_neg hb, nearestInt_of_neg ha, nearestInt_of_neg hb]
    omega
  · have hnearest := hpos ha
    have hplace := hpos' ha
    rw [place_ofInt_of_neg ha, place_ofInt_of_nonneg hb, nearestInt_of_neg ha,
      nearestInt_of_nonneg hb]
    omega
  · rw [place_ofInt_of_nonneg ha, place_ofInt_of_neg hb, nearestInt_of_nonneg ha,
      nearestInt_of_neg hb]
    omega
  · rw [place_ofInt_of_nonneg ha, place_ofInt_of_nonneg hb, nearestInt_of_nonneg ha,
      nearestInt_of_nonneg hb]
    omega

/-- The doubles of integers are ordered as the integers are, once these are rounded. -/
theorem compare_ofInt_eq (a b : Int) :
    (ofInt a).compare (ofInt b) = Ord.compare (nearestInt a) (nearestInt b) := by
  have hlt := place_ofInt_lt_iff a b
  have hgt := place_ofInt_lt_iff b a
  unfold Binary64.compare
  rcases Int.lt_trichotomy (nearestInt a) (nearestInt b) with h | h | h
  · rw [compare_lt_iff_lt.mpr h, compare_lt_iff_lt.mpr (hlt.mpr h)]
  · rw [compare_eq_iff_eq.mpr h]
    exact compare_eq_iff_eq.mpr (by omega)
  · rw [compare_gt_iff_gt.mpr h, compare_gt_iff_gt.mpr (hgt.mpr h)]

theorem nearest_of_le (small : n ≤ 2 ^ 53) : nearest n = n := by
  rcases Nat.lt_or_eq_of_le small with hlt | rfl
  · refine nearest_of_small (Nat.lt_succ_iff.mp ?_)
    rcases Nat.eq_zero_or_pos n with rfl | pos
    · decide
    · exact (Nat.log2_lt (Nat.pos_iff_ne_zero.mp pos)).mpr hlt
  · decide +kernel

theorem nearestInt_of_small {a : Int} (small : a.natAbs ≤ 2 ^ 53) : nearestInt a = a := by
  unfold nearestInt
  rw [nearest_of_le small]
  split <;> omega

theorem nearestInt_mono {a b : Int} (le : a ≤ b) : nearestInt a ≤ nearestInt b := by
  rcases lt_or_ge a 0 with ha | ha <;> rcases lt_or_ge b 0 with hb | hb
  · have hmono := nearest_mono (show b.natAbs ≤ a.natAbs by omega)
    rw [nearestInt_of_neg ha, nearestInt_of_neg hb]
    omega
  · rw [nearestInt_of_neg ha, nearestInt_of_nonneg hb]
    omega
  · omega
  · have hmono := nearest_mono (show a.natAbs ≤ b.natAbs by omega)
    rw [nearestInt_of_nonneg ha, nearestInt_of_nonneg hb]
    omega

theorem nearestInt_near (a : Int) :
    2 * a ≤ 2 * nearestInt a + spacing a.natAbs ∧ 2 * nearestInt a ≤ 2 * a + spacing a.natAbs := by
  have hnear := nearest_near a.natAbs
  rcases lt_or_ge a 0 with ha | ha
  · rw [nearestInt_of_neg ha]
    omega
  · rw [nearestInt_of_nonneg ha]
    omega

theorem nearestInt_lt_of_small {a b : Int} (lt : a < b)
    (small : a.natAbs < 2 ^ 53 ∨ b.natAbs < 2 ^ 53) : nearestInt a < nearestInt b := by
  rcases small with ha | hb
  · have hnext := nearestInt_mono (show a + 1 ≤ b by omega)
    rw [nearestInt_of_small (show (a + 1).natAbs ≤ 2 ^ 53 by omega)] at hnext
    rw [nearestInt_of_small (Nat.le_of_lt ha)]
    omega
  · have hprev := nearestInt_mono (show a ≤ b - 1 by omega)
    rw [nearestInt_of_small (show (b - 1).natAbs ≤ 2 ^ 53 by omega)] at hprev
    rw [nearestInt_of_small (Nat.le_of_lt hb)]
    omega

/-- Integers further apart than the spacing do not become equal. -/
theorem nearestInt_lt_of_apart {a b : Int} (apart : a + spacing (max a.natAbs b.natAbs) < b) :
    nearestInt a < nearestInt b := by
  have ha := (nearestInt_near a).2
  have hb := (nearestInt_near b).1
  have hspacing := spacing_mono (Nat.le_max_left a.natAbs b.natAbs)
  have hspacing' := spacing_mono (Nat.le_max_right a.natAbs b.natAbs)
  omega

end LiveQuery.Binary64
