import LiveQuery.Json.Shortest
import Mathlib.Algebra.Order.Field.Power
import Mathlib.Algebra.Order.Field.Rat
import Mathlib.Tactic.FieldSimp
import Mathlib.Tactic.Linarith
import Mathlib.Tactic.NormNum
import Mathlib.Tactic.Positivity
import Mathlib.Tactic.Ring

/-!
# Shortest decimals tell doubles apart

The reals that round to a double form an interval around it, and the intervals of different
doubles have no point in common: each ends at the midpoint to the next (`upper_le_lower_succ`),
and of two neighbours exactly one, the even one, keeps that midpoint
(`rank_eq_of_holds`).

The search for a shortest decimal looks at grids of one digit more each time. A hit lies in the
interval (`holds_of_onGrid?`), and the grid of seventeen digits always has one, because its
spacing is less than the interval is wide (`exists_onGrid?`). So the shortest decimal lies in the
interval of its own double (`shortest_holds`) and in no other: doubles with one shortest decimal
are equal up to the sign (`rank_eq_of_value_shortest`).
-/

namespace LiveQuery

theorem tenTo_eq (n : Nat) : tenTo n = 10 ^ n := rfl

namespace Decimal

def value (d : Decimal) : ℚ := d.digits * 10 ^ d.exponent

theorem value_trim (digits : Nat) (exponent : Int) :
    (trim digits exponent).value = digits * 10 ^ exponent := by
  fun_induction trim digits exponent with
  | case1 digits exponent zeros ih =>
    have hten : digits = 10 * (digits / 10) := by omega
    rw [ih, zpow_add_one₀ (by norm_num)]
    nth_rewrite 2 [hten]
    push_cast
    ring
  | case2 digits exponent done => rfl

theorem width_pos (n : Nat) : 0 < width n := Nat.length_toDigits_pos

theorem lt_tenTo_width (n : Nat) : n < 10 ^ width n :=
  (Nat.length_toDigits_le_iff (by decide) (width_pos n)).mp (Nat.le_refl _)

theorem tenTo_width_pred_le {n : Nat} (pos : 0 < n) : 10 ^ (width n - 1) ≤ n := by
  by_cases hone : width n = 1
  · rw [hone]
    exact pos
  · have hw := width_pos n
    have hlt : ¬n < 10 ^ (width n - 1) := fun h => by
      have := (Nat.length_toDigits_le_iff (by decide) (show 0 < width n - 1 by omega)).mpr h
      unfold width at hw this
      omega
    exact Nat.not_lt.mp hlt

theorem leadingPower_le {num den : Nat} (hnum : 0 < num) (hden : 0 < den) :
    (10 : ℚ) ^ leadingPower num den * den ≤ num := by
  have hten : (10 : ℚ) ≠ 0 := by norm_num
  unfold leadingPower
  split
  · next hle =>
    have hpos : 0 < num / den := Nat.div_pos hle hden
    have hw := width_pos (num / den)
    have hexp : (width (num / den) : Int) - 1 = ((width (num / den) - 1 : Nat) : Int) := by omega
    rw [hexp, zpow_natCast]
    have hnat : 10 ^ (width (num / den) - 1) * den ≤ num :=
      (Nat.mul_le_mul_right den (tenTo_width_pred_le hpos)).trans (Nat.div_mul_le_self num den)
    exact_mod_cast hnat
  · dsimp only
    have hw := width_pos (den / num)
    have hbound : ∀ k : Nat, den ≤ num * 10 ^ k → (10 : ℚ) ^ (-(k : Int)) * den ≤ num := by
      intro k hk
      have hcast : (den : ℚ) ≤ num * 10 ^ k := by exact_mod_cast hk
      rw [zpow_neg, zpow_natCast, inv_mul_le_iff₀ (by positivity)]
      linarith
    split
    · next hle =>
      have hexp : -((width (den / num) : Int) - 1) = -((width (den / num) - 1 : Nat) : Int) := by
        omega
      rw [hexp]
      exact hbound _ hle
    · refine hbound _ (Nat.le_of_lt ?_)
      rw [Nat.mul_comm]
      exact (Nat.div_lt_iff_lt_mul hnum).mp (lt_tenTo_width _)

end Decimal

namespace Binary64

/-! ## Decimals inside an interval -/

namespace Interval

/-- A number lies in the interval. -/
def Holds (i : Interval) (v : ℚ) : Prop :=
  if i.closed then i.low ≤ v * i.den ∧ v * i.den ≤ i.high
  else i.low < v * i.den ∧ v * i.den < i.high

variable {i : Interval} {unit num : Nat} {power : Int} {v : ℚ}

theorem Holds.of_lt (low : i.low < v * i.den) (high : v * i.den < i.high) : i.Holds v := by
  unfold Holds
  split
  · exact ⟨low.le, high.le⟩
  · exact ⟨low, high⟩

theorem contains_iff (hunit : 0 < unit) (hnum : (num : ℚ) = v * i.den * unit) :
    i.contains unit num = true ↔ i.Holds v := by
  have hpos : (0 : ℚ) < unit := by exact_mod_cast hunit
  have hlow : i.low * unit ≤ num ↔ (i.low : ℚ) ≤ v * i.den := by
    rw [← mul_le_mul_iff_left₀ hpos, ← hnum]
    exact_mod_cast Iff.rfl
  have hhigh : num ≤ i.high * unit ↔ v * i.den ≤ (i.high : ℚ) := by
    rw [← mul_le_mul_iff_left₀ hpos, ← hnum]
    exact_mod_cast Iff.rfl
  have hlow' : i.low * unit < num ↔ (i.low : ℚ) < v * i.den := by
    rw [← mul_lt_mul_iff_left₀ hpos, ← hnum]
    exact_mod_cast Iff.rfl
  have hhigh' : num < i.high * unit ↔ v * i.den < (i.high : ℚ) := by
    rw [← mul_lt_mul_iff_left₀ hpos, ← hnum]
    exact_mod_cast Iff.rfl
  unfold contains Holds
  split <;> simp only [Bool.and_eq_true, decide_eq_true_eq, hlow, hhigh, hlow', hhigh']

/-- By what the interval's numbers are multiplied on a grid. -/
def unitOf (power : Int) : Nat := if 0 ≤ power then 1 else tenTo (-power).toNat

/-- The spacing of a grid in those multiples. -/
def stepOf (i : Interval) (power : Int) : Nat :=
  (if 0 ≤ power then tenTo power.toNat else 1) * i.den

theorem unitOf_pos (power : Int) : 0 < unitOf power := by
  unfold unitOf
  split
  · exact Nat.one_pos
  · exact Nat.pow_pos (by decide)

theorem stepOf_pos (hden : 0 < i.den) (power : Int) : 0 < i.stepOf power := by
  refine Nat.mul_pos ?_ hden
  split
  · exact Nat.pow_pos (by decide)
  · exact Nat.one_pos

theorem stepOf_eq (i : Interval) (power : Int) :
    (i.stepOf power : ℚ) = 10 ^ power * i.den * unitOf power := by
  unfold stepOf unitOf
  split
  · next hpos =>
    obtain ⟨n, rfl⟩ := Int.eq_ofNat_of_zero_le hpos
    simp only [Int.toNat_natCast, tenTo_eq, zpow_natCast]
    push_cast
    ring
  · next hneg =>
    obtain ⟨n, hn⟩ := Int.eq_ofNat_of_zero_le (show 0 ≤ -power by omega)
    obtain rfl : power = -(n : Int) := by omega
    simp only [Int.neg_neg, Int.toNat_natCast, tenTo_eq, zpow_neg, zpow_natCast]
    push_cast
    field_simp

theorem contains_grid_iff (k : Nat) :
    i.contains (unitOf power) (k * i.stepOf power) = true ↔ i.Holds (k * 10 ^ power) := by
  refine contains_iff (unitOf_pos power) ?_
  push_cast
  rw [stepOf_eq]
  ring

theorem onGrid?_eq (i : Interval) (power : Int) :
    ∃ k : Nat, ∃ nearer : Bool, k = i.mid * unitOf power / i.stepOf power ∧
      i.onGrid? power =
        (if (decide (0 < k) && i.contains (unitOf power) (k * i.stepOf power)) &&
            (!i.contains (unitOf power) ((k + 1) * i.stepOf power) || nearer)
          then some (Decimal.trim k power)
          else if i.contains (unitOf power) ((k + 1) * i.stepOf power)
          then some (Decimal.trim (k + 1) power) else none) :=
  ⟨_, _, rfl, rfl⟩

theorem holds_of_onGrid? {d : Decimal} (hit : i.onGrid? power = some d) : i.Holds d.value := by
  obtain ⟨k, nearer, -, heq⟩ := onGrid?_eq i power
  rw [heq] at hit
  split at hit
  · next hdown =>
    obtain rfl := Option.some.inj hit
    simp only [Bool.and_eq_true] at hdown
    rw [Decimal.value_trim]
    exact contains_grid_iff k |>.mp hdown.1.2
  · split at hit
    · next hup =>
      obtain rfl := Option.some.inj hit
      rw [Decimal.value_trim]
      exact contains_grid_iff (k + 1) |>.mp hup
    · cases hit

theorem mid_between (hden : 0 < i.den) (power : Int) {k : Nat}
    (hk : k = i.mid * unitOf power / i.stepOf power) :
    (k : ℚ) * 10 ^ power * i.den ≤ i.mid ∧ (i.mid : ℚ) < (k + 1) * 10 ^ power * i.den := by
  have hunit : (0 : ℚ) < unitOf power := by exact_mod_cast unitOf_pos power
  constructor
  · have hnat : k * i.stepOf power ≤ i.mid * unitOf power := by
      rw [hk]
      exact Nat.div_mul_le_self _ _
    have hcast : (k : ℚ) * i.stepOf power ≤ i.mid * unitOf power := by exact_mod_cast hnat
    rw [stepOf_eq] at hcast
    refine le_of_mul_le_mul_right ?_ hunit
    linarith
  · have hnat : i.mid * unitOf power < (k + 1) * i.stepOf power := by
      rw [hk, Nat.mul_comm _ (i.stepOf power)]
      exact Nat.lt_mul_div_succ _ (stepOf_pos hden power)
    have hcast : (i.mid : ℚ) * unitOf power < (k + 1) * i.stepOf power := by exact_mod_cast hnat
    rw [stepOf_eq] at hcast
    refine lt_of_mul_lt_mul_right ?_ hunit.le
    linarith

/-- One of the two neighbours lies inside, else the spacing would span the interval. -/
theorem holds_neighbour {k : Nat} (hlow : i.low < i.mid) (hhigh : i.mid < i.high)
    (below : (k : ℚ) * 10 ^ power * i.den ≤ i.mid)
    (above : (i.mid : ℚ) < (k + 1) * 10 ^ power * i.den)
    (fine : (10 : ℚ) ^ power * i.den < i.high - i.low) :
    i.Holds (k * 10 ^ power) ∨ i.Holds ((k + 1 : Nat) * 10 ^ power) := by
  have hlowQ : (i.low : ℚ) < i.mid := by exact_mod_cast hlow
  have hhighQ : (i.mid : ℚ) < i.high := by exact_mod_cast hhigh
  push_cast
  by_cases hdown : (i.low : ℚ) < k * 10 ^ power * i.den
  · exact .inl (.of_lt hdown (by linarith))
  · refine .inr (.of_lt (by linarith) ?_)
    have hnext : ((k : ℚ) + 1) * 10 ^ power * i.den =
        k * 10 ^ power * i.den + 10 ^ power * i.den := by ring
    linarith

theorem exists_onGrid? (hden : 0 < i.den) (hlow : i.low < i.mid) (hhigh : i.mid < i.high)
    (first : (10 : ℚ) ^ power * i.den ≤ i.mid)
    (fine : (10 : ℚ) ^ power * i.den < i.high - i.low) : ∃ d, i.onGrid? power = some d := by
  obtain ⟨k, nearer, hk, heq⟩ := onGrid?_eq i power
  obtain ⟨hbelow, habove⟩ := mid_between hden power hk
  have hkpos : 0 < k := by
    rw [hk]
    refine Nat.div_pos ?_ (stepOf_pos hden power)
    have hcast : (i.stepOf power : ℚ) ≤ i.mid * unitOf power := by
      rw [stepOf_eq]
      exact mul_le_mul_of_nonneg_right first (Nat.cast_nonneg _)
    exact_mod_cast hcast
  have hinside := holds_neighbour hlow hhigh hbelow habove fine
  rw [← contains_grid_iff, ← contains_grid_iff] at hinside
  rw [heq]
  split
  · exact ⟨_, rfl⟩
  · next hdown =>
    split
    · exact ⟨_, rfl⟩
    · next hup =>
      rcases hinside with hin | hin
      · simp [hkpos, hin, hup] at hdown
      · exact absurd hin hup

theorem holds_of_firstHit {lead : Int} {tries count : Nat} {d : Decimal}
    (hit : i.firstHit lead count tries = some d) : i.Holds d.value := by
  induction tries generalizing count with
  | zero => cases hit
  | succ tries ih =>
    rw [firstHit] at hit
    split at hit
    · next hgrid =>
      obtain rfl := Option.some.inj hit
      exact holds_of_onGrid? hgrid
    · exact ih hit

theorem exists_firstHit {lead : Int} {tries count : Nat} {d : Decimal}
    (last : i.onGrid? (lead - (count + tries : Nat) + 1) = some d) :
    ∃ d, i.firstHit lead count (tries + 1) = some d := by
  induction tries generalizing count with
  | zero =>
    rw [firstHit]
    rw [Nat.add_zero] at last
    exact ⟨d, by rw [last]⟩
  | succ tries ih =>
    rw [firstHit]
    split
    · next e hgrid => exact ⟨e, rfl⟩
    · refine ih ?_
      rw [show count + 1 + tries = count + (tries + 1) by omega]
      exact last

end Interval

/-! ## The interval of a double -/

variable {x y : Binary64}

theorem significand_pos (hx : x.rank ≠ 0) : 0 < x.significand := by
  unfold significand firstNormal
  split <;> omega

theorem significand_lt (x : Binary64) : x.significand < 2 * firstNormal := by
  have hmod := Nat.mod_lt x.rank (show 0 < firstNormal by decide)
  unfold significand
  split <;> omega

theorem significand_parity (x : Binary64) : x.significand % 2 = x.rank % 2 := by
  unfold significand firstNormal
  split <;> omega

/-- How far the interval reaches down, in quarters of the spacing. -/
def reach (x : Binary64) : Nat :=
  if x.significand = firstNormal ∧ -1074 < x.exponent then 1 else 2

def lower (x : Binary64) : ℚ := (4 * x.significand - x.reach) * 2 ^ (x.exponent - 2)

def upper (x : Binary64) : ℚ := (4 * x.significand + 2) * 2 ^ (x.exponent - 2)

/-- The unit in which the interval's numbers are counted. -/
def interval.up (x : Binary64) : Nat :=
  if 0 ≤ x.exponent - 2 then 1 <<< (x.exponent - 2).toNat else 1

theorem interval_low (x : Binary64) :
    x.interval.low = (4 * x.significand - x.reach) * interval.up x := rfl

theorem interval_mid (x : Binary64) : x.interval.mid = 4 * x.significand * interval.up x := rfl

theorem interval_high (x : Binary64) :
    x.interval.high = (4 * x.significand + 2) * interval.up x := rfl

theorem reach_pos (x : Binary64) : 0 < x.reach := by
  unfold reach
  split <;> decide

theorem reach_le (x : Binary64) : x.reach ≤ 2 := by
  unfold reach
  split <;> decide

theorem interval_den_pos (x : Binary64) : 0 < x.interval.den := by
  unfold interval
  dsimp only
  split
  · exact Nat.one_pos
  · rw [Nat.one_shiftLeft]
    exact Nat.two_pow_pos _

theorem interval_up_pos (x : Binary64) : 0 < interval.up x := by
  unfold interval.up
  split
  · rw [Nat.one_shiftLeft]
    exact Nat.two_pow_pos _
  · exact Nat.one_pos

theorem interval_up_eq (x : Binary64) :
    (interval.up x : ℚ) = 2 ^ (x.exponent - 2) * x.interval.den := by
  unfold interval.up interval
  dsimp only
  generalize x.exponent - 2 = q
  split
  · next hpos =>
    obtain ⟨n, rfl⟩ := Int.eq_ofNat_of_zero_le hpos
    simp only [Int.toNat_natCast, Nat.one_shiftLeft, zpow_natCast, Nat.cast_one, mul_one]
    push_cast
    rfl
  · next hneg =>
    obtain ⟨n, hn⟩ := Int.eq_ofNat_of_zero_le (show 0 ≤ -q by omega)
    obtain rfl : q = -(n : Int) := by omega
    simp only [Int.neg_neg, Int.toNat_natCast, Nat.one_shiftLeft, zpow_neg, zpow_natCast]
    push_cast
    field_simp

theorem cast_interval_low (hx : x.rank ≠ 0) :
    (x.interval.low : ℚ) = x.lower * x.interval.den := by
  have hm := significand_pos hx
  have hr := x.reach_le
  rw [interval_low, Nat.cast_mul, Nat.cast_sub (by omega), interval_up_eq, lower]
  push_cast
  ring

theorem cast_interval_high (x : Binary64) :
    (x.interval.high : ℚ) = x.upper * x.interval.den := by
  rw [interval_high, Nat.cast_mul, interval_up_eq, upper]
  push_cast
  ring

theorem interval_holds_iff (hx : x.rank ≠ 0) {v : ℚ} :
    x.interval.Holds v ↔
      if x.rank % 2 = 0 then x.lower ≤ v ∧ v ≤ x.upper else x.lower < v ∧ v < x.upper := by
  have hden : (0 : ℚ) < x.interval.den := by exact_mod_cast x.interval_den_pos
  have hclosed : x.interval.closed = decide (x.rank % 2 = 0) := by
    rw [← significand_parity]
    rfl
  unfold Interval.Holds
  rw [hclosed, cast_interval_low hx, cast_interval_high]
  simp only [decide_eq_true_eq, mul_le_mul_iff_left₀ hden, mul_lt_mul_iff_left₀ hden]

theorem lower_lt_upper (x : Binary64) : x.lower < x.upper := by
  have hr : (0 : ℚ) < x.reach := by exact_mod_cast x.reach_pos
  unfold lower upper
  exact mul_lt_mul_of_pos_right (by linarith) (by positivity)

theorem lower_pos (hx : x.rank ≠ 0) : 0 < x.lower := by
  have hm : (1 : ℚ) ≤ x.significand := by exact_mod_cast significand_pos hx
  have hr : (x.reach : ℚ) ≤ 2 := by exact_mod_cast x.reach_le
  unfold lower
  exact mul_pos (by linarith) (by positivity)

theorem succ_cases (hy : y.rank = x.rank + 1) :
    (y.exponent = x.exponent ∧ y.significand = x.significand + 1 ∧ y.reach = 2) ∨
    (y.exponent = x.exponent + 1 ∧ y.significand = firstNormal ∧
      x.significand + 1 = 2 * firstNormal ∧ y.reach = 1) := by
  have hsx : x.significand = if x.rank < firstNormal then x.rank
      else firstNormal + x.rank % firstNormal := rfl
  have hsy : y.significand = if x.rank + 1 < firstNormal then x.rank + 1
      else firstNormal + (x.rank + 1) % firstNormal := by rw [← hy]; rfl
  have hex : x.exponent = if x.rank < firstNormal then -1074
      else ((x.rank / firstNormal : Nat) : Int) - 1075 := rfl
  have hey : y.exponent = if x.rank + 1 < firstNormal then -1074
      else (((x.rank + 1) / firstNormal : Nat) : Int) - 1075 := by rw [← hy]; rfl
  have hry : y.reach = if y.significand = firstNormal ∧ -1074 < y.exponent then 1 else 2 := rfl
  unfold firstNormal at *
  split at hsx <;> split at hsy <;> split at hry <;> omega

/-- Neighbours meet: where the exponent grows the significand halves, and the interval of the
larger double reaches down only half as far. -/
theorem upper_le_lower_succ (hy : y.rank = x.rank + 1) : x.upper ≤ y.lower := by
  unfold upper lower
  rcases succ_cases hy with ⟨hexp, hsig, hreach⟩ | ⟨hexp, hsig, hlast, hreach⟩
  · rw [hexp, hsig, hreach]
    push_cast
    exact le_of_eq (by ring)
  · have hlastQ : (x.significand : ℚ) + 1 = 2 * firstNormal := by exact_mod_cast hlast
    have htwo : (2 : ℚ) ^ (y.exponent - 2) = 2 ^ (x.exponent - 2) * 2 := by
      rw [← zpow_add_one₀ two_ne_zero, hexp]
      congr 1
      omega
    rw [htwo, hsig, hreach, eq_sub_of_add_eq hlastQ]
    push_cast
    exact le_of_eq (by ring)

theorem upper_le_lower (hlt : x.rank < y.rank) : x.upper ≤ y.lower := by
  obtain ⟨gap, hgap⟩ := Nat.exists_eq_add_of_lt hlt
  induction gap generalizing y with
  | zero => exact upper_le_lower_succ hgap
  | succ gap ih =>
    let z : Binary64 := ⟨false, x.rank + gap + 1⟩
    have hz : x.upper ≤ z.lower := ih (show x.rank < x.rank + gap + 1 by omega) rfl
    have hzy : z.upper ≤ y.lower := upper_le_lower_succ hgap
    exact hz.trans (z.lower_lt_upper.le.trans hzy)

theorem not_holds_of_lt (hx : x.rank ≠ 0) (hlt : x.rank < y.rank) {v : ℚ}
    (hxv : x.interval.Holds v) : ¬y.interval.Holds v := by
  intro hyv
  rw [interval_holds_iff hx] at hxv
  rw [interval_holds_iff (Nat.ne_zero_of_lt hlt)] at hyv
  have hle := upper_le_lower hlt
  by_cases hnext : y.rank = x.rank + 1
  · by_cases heven : x.rank % 2 = 0
    · rw [if_neg (by omega)] at hyv
      rw [if_pos heven] at hxv
      linarith [hxv.2, hyv.1]
    · rw [if_neg heven] at hxv
      have hv : y.lower ≤ v := by
        split at hyv
        · exact hyv.1
        · exact hyv.1.le
      linarith [hxv.2]
  · let z : Binary64 := ⟨false, x.rank + 1⟩
    have hxz : x.upper ≤ z.lower := upper_le_lower_succ rfl
    have hzy : z.upper ≤ y.lower := upper_le_lower (show x.rank + 1 < y.rank by omega)
    have hz := z.lower_lt_upper
    have hxv' : v ≤ x.upper := by
      split at hxv
      · exact hxv.2
      · exact hxv.2.le
    have hyv' : y.lower ≤ v := by
      split at hyv
      · exact hyv.1
      · exact hyv.1.le
    linarith

/-- A number lies in the interval of one double only, up to the sign. -/
theorem rank_eq_of_holds (hx : x.rank ≠ 0) (hy : y.rank ≠ 0) {v : ℚ}
    (hxv : x.interval.Holds v) (hyv : y.interval.Holds v) : x.rank = y.rank := by
  rcases Nat.lt_trichotomy x.rank y.rank with hlt | heq | hgt
  · exact absurd hyv (not_holds_of_lt hx hlt hxv)
  · exact heq
  · exact absurd hxv (not_holds_of_lt hy hgt hyv)

/-! ## The shortest decimal -/

theorem mid_lt_width (hx : x.rank ≠ 0) :
    (x.interval.mid : ℚ) < 10 ^ 16 * (x.interval.high - x.interval.low) := by
  have hup := x.interval_up_pos
  have hm := significand_pos hx
  have hlt := x.significand_lt
  have hreach : x.reach = if x.significand = firstNormal ∧ -1074 < x.exponent then 1 else 2 := rfl
  have hquarters : 4 * x.significand < 10 ^ 16 * (2 + x.reach) := by
    unfold firstNormal at hlt hreach
    split at hreach <;> omega
  have hwidth : (x.interval.high : ℚ) - x.interval.low = (2 + x.reach) * interval.up x := by
    have hr := x.reach_le
    rw [interval_high, interval_low, Nat.cast_mul, Nat.cast_mul, Nat.cast_sub (by omega)]
    push_cast
    ring
  have hquartersQ : (4 * x.significand : ℚ) < 10 ^ 16 * (2 + x.reach) := by
    exact_mod_cast hquarters
  have hupQ : (0 : ℚ) < interval.up x := by exact_mod_cast hup
  rw [hwidth, interval_mid, ← mul_assoc]
  push_cast
  exact mul_lt_mul_of_pos_right hquartersQ hupQ

theorem interval_mid_pos (hx : x.rank ≠ 0) : 0 < x.interval.mid := by
  have hm := significand_pos hx
  exact Nat.mul_pos (by omega) x.interval_up_pos

/-- Seventeen digits always suffice. -/
theorem exists_onGrid?_seventeen (hx : x.rank ≠ 0) :
    ∃ d, x.interval.onGrid?
      (Decimal.leadingPower x.interval.mid x.interval.den - (1 + 16 : Nat) + 1) = some d := by
  have hm := significand_pos hx
  have hup := x.interval_up_pos
  have hreach := x.reach_pos
  have hten : (10 : ℚ) ≠ 0 := by norm_num
  generalize hlead : Decimal.leadingPower x.interval.mid x.interval.den = lead
  have hfirst : (10 : ℚ) ^ lead * x.interval.den ≤ x.interval.mid := by
    rw [← hlead]
    exact Decimal.leadingPower_le (interval_mid_pos hx) x.interval_den_pos
  have hscale : (10 : ℚ) ^ lead * x.interval.den =
      10 ^ 16 * (10 ^ (lead - (1 + 16 : Nat) + 1) * x.interval.den) := by
    rw [← mul_assoc]
    congr 1
    rw [← zpow_natCast (10 : ℚ) 16, ← zpow_add₀ hten]
    congr 1
    omega
  have hpos : 0 ≤ (10 : ℚ) ^ (lead - (1 + 16 : Nat) + 1) * x.interval.den := by positivity
  have hwidth := mid_lt_width hx
  refine Interval.exists_onGrid? x.interval_den_pos ?_ ?_ (by linarith) (by linarith)
  · rw [interval_low, interval_mid]
    exact Nat.mul_lt_mul_of_pos_right (by omega) hup
  · rw [interval_mid, interval_high]
    exact Nat.mul_lt_mul_of_pos_right (by omega) hup

/-- The shortest decimal of a double other than zero lies in the double's interval. -/
theorem shortest_holds (hx : x.rank ≠ 0) : x.interval.Holds x.shortest.value := by
  obtain ⟨last, hlast⟩ := exists_onGrid?_seventeen hx
  obtain ⟨d, hd⟩ := Interval.exists_firstHit hlast
  have hshortest : x.shortest = d := by
    unfold shortest
    rw [if_neg hx]
    dsimp only
    rw [hd]
    rfl
  rw [hshortest]
  exact Interval.holds_of_firstHit hd

theorem value_shortest_eq_zero_iff : x.shortest.value = 0 ↔ x.rank = 0 := by
  constructor
  · intro hzero
    by_contra hx
    have hpos := lower_pos hx
    have hholds := (interval_holds_iff hx).mp (shortest_holds hx)
    rw [hzero] at hholds
    split at hholds
    · exact absurd hholds.1 (not_le.mpr hpos)
    · exact absurd hholds.1 (not_lt.mpr hpos.le)
  · intro hx
    unfold shortest
    rw [if_pos hx]
    simp [Decimal.value]

/-- Doubles whose shortest decimals are one number are equal up to the sign. -/
theorem rank_eq_of_value_shortest (heq : x.shortest.value = y.shortest.value) :
    x.rank = y.rank := by
  by_cases hx : x.rank = 0
  · have hy : y.rank = 0 := by
      rw [← value_shortest_eq_zero_iff, ← heq, value_shortest_eq_zero_iff]
      exact hx
    rw [hx, hy]
  · have hy : y.rank ≠ 0 := by
      rw [ne_eq, ← value_shortest_eq_zero_iff, ← heq, value_shortest_eq_zero_iff]
      exact hx
    refine rank_eq_of_holds hx hy (shortest_holds hx) ?_
    rw [heq]
    exact shortest_holds hy

end Binary64

end LiveQuery
