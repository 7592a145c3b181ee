import LiveQuery.Json.Binary64

/-!
# The shortest decimal that reads back

A double stands for every real number nearer to it than to its neighbours. Among the decimals in
that interval those with the fewest digits are wanted, and of these the one nearest to the double,
an exact tie going to the even digit.

For a given number of digits only two decimals can qualify, the neighbours of the double on the
grid of decimals with that many digits, so each digit count is settled by comparing whole numbers.
-/

namespace LiveQuery

/-- The number `digits * 10 ^ exponent`. -/
structure Decimal where
  digits : Nat
  exponent : Int
  deriving DecidableEq, Repr

namespace Decimal

def trim (digits : Nat) (exponent : Int) : Decimal :=
  if h : digits ≠ 0 ∧ digits % 10 = 0 then trim (digits / 10) (exponent + 1)
  else ⟨digits, exponent⟩
termination_by digits
decreasing_by omega

def width (n : Nat) : Nat := (Nat.toDigits 10 n).length

def leadingPower (num den : Nat) : Int :=
  if den ≤ num then (width (num / den) : Int) - 1
  else
    let d := width (den / num)
    if den ≤ num * tenTo (d - 1) then -((d : Int) - 1) else -(d : Int)

end Decimal

namespace Binary64

/-- The reals that round to a non-zero double, as multiples of a common unit `num / den`: the
double is `mid`, the interval reaches from `low` to `high`, and its ends belong to it if `closed`. -/
structure Interval where
  low : Nat
  mid : Nat
  high : Nat
  den : Nat
  closed : Bool

/-- Below the first double of an exponent the spacing is only half as wide. -/
def interval (x : Binary64) : Interval :=
  let m := x.significand
  let q := x.exponent - 2
  let below := if m = firstNormal ∧ -1074 < x.exponent then 1 else 2
  let up := if 0 ≤ q then 1 <<< q.toNat else 1
  { low := (4 * m - below) * up
    mid := 4 * m * up
    high := (4 * m + 2) * up
    den := if 0 ≤ q then 1 else 1 <<< (-q).toNat
    closed := m % 2 = 0 }

namespace Interval

/-- Does `num / den` with the interval's own denominator multiplied by `unit` lie inside? -/
def contains (i : Interval) (unit num : Nat) : Bool :=
  if i.closed then i.low * unit ≤ num && num ≤ i.high * unit
  else i.low * unit < num && num < i.high * unit

/-- The decimal on the grid `10 ^ power` that lies inside, the nearer one if two do. -/
def onGrid? (i : Interval) (power : Int) : Option Decimal :=
  let unit := if 0 ≤ power then 1 else tenTo (-power).toNat
  let step := (if 0 ≤ power then tenTo power.toNat else 1) * i.den
  let mid := i.mid * unit
  let down := mid / step
  let below := mid - down * step
  let above := (down + 1) * step - mid
  let okDown := decide (0 < down) && i.contains unit (down * step)
  let okUp := i.contains unit ((down + 1) * step)
  let nearerDown := below < above || (below == above && down % 2 == 0)
  if okDown && (!okUp || nearerDown) then some (Decimal.trim down power)
  else if okUp then some (Decimal.trim (down + 1) power)
  else none

/-- The first grid with a hit among those of `count`, `count + 1`, … digits, where `lead` is the
power of ten of the leading digit. -/
def firstHit (i : Interval) (lead : Int) (count : Nat) : Nat → Option Decimal
  | 0 => none
  | tries + 1 =>
    match i.onGrid? (lead - count + 1) with
    | some d => some d
    | none => i.firstHit lead (count + 1) tries

end Interval

/-- The shortest decimal that reads back as the double, leaving out the sign. Seventeen digits
always suffice. -/
def shortest (x : Binary64) : Decimal :=
  if x.rank = 0 then ⟨0, 0⟩
  else
    let i := x.interval
    (i.firstHit (Decimal.leadingPower i.mid i.den) 1 17).getD ⟨0, 0⟩

example : (ofDecimal false 1 (-1)).shortest = ⟨1, -1⟩ := by decide +kernel
example : (ofDecimal false 5 (-324)).shortest = ⟨5, -324⟩ := by decide +kernel
example : (ofInt 18446744073709551616).shortest = ⟨18446744073709552, 3⟩ := by decide +kernel

end Binary64

structure DecimalLayout where
  /-- The least power of ten of a leading digit that is written positionally. -/
  leastPositional : Int
  /-- The greatest power of ten of a leading digit that is written positionally. -/
  greatestPositional : Int

/-- Numbers from `0.00001` up to below `10 ^ 16` are written positionally and always with a
fraction; all others with an exponent that carries its sign. -/
def DecimalLayout.json : DecimalLayout := ⟨-5, 15⟩

namespace Decimal

def text (layout : DecimalLayout) (d : Decimal) : List Char :=
  let ds := Nat.toDigits 10 d.digits
  let lead : Int := d.exponent + (ds.length : Int) - 1
  if d.digits = 0 then ['0', '.', '0']
  else if layout.leastPositional ≤ lead ∧ lead ≤ layout.greatestPositional then
    if lead < 0 then '0' :: '.' :: (List.replicate (-lead - 1).toNat '0' ++ ds)
    else
      let whole := ds.take (lead.toNat + 1)
      let rest := ds.drop (lead.toNat + 1)
      whole ++ List.replicate (lead.toNat + 1 - ds.length) '0' ++ '.' ::
        (if rest.isEmpty then ['0'] else rest)
  else
    let rest := ds.drop 1
    ds.take 1 ++ (if rest.isEmpty then [] else '.' :: rest) ++ 'e' ::
      (if lead < 0 then '-' else '+') :: Nat.toDigits 10 lead.natAbs

end Decimal

def Binary64.text (x : Binary64) : List Char :=
  let body := x.shortest.text DecimalLayout.json
  if x.negative then '-' :: body else body

example : (Binary64.ofDecimal false 1 2).text = "100.0".toList := by decide +kernel
example : (Binary64.ofDecimal true 15 299).text = "-1.5e+300".toList := by decide +kernel
example : (Binary64.ofDecimal false 1 (-5)).text = "0.00001".toList := by decide +kernel
example : (Binary64.ofDecimal false 1 (-7)).text = "1e-7".toList := by decide +kernel
example : (Binary64.ofDecimal true 0 0).text = "-0.0".toList := by decide +kernel

end LiveQuery
