/-!
# Double-precision numbers as ranks

The finite non-negative doubles are listed in order of value: rank `0` is zero, rank `1` is
`2 ^ -1074`, and each further rank is the next larger double. A double is such a rank with a sign.
The ranks are the bit patterns of the standard encoding, so comparing doubles is comparing ranks,
and rounding a quotient to the nearest double is one rounded division (`rankOfRatio`).

Nothing here bounds the rank: a rank from `infinityRank` on stands for a number too large for the
encoding, and whoever reads a number from outside refuses it there.
-/

namespace LiveQuery

def tenTo (n : Nat) : Nat := Nat.pow 10 n

/-- A signed place in the list of non-negative doubles. -/
structure Binary64 where
  negative : Bool
  rank : Nat
  deriving DecidableEq, Repr, Inhabited

namespace Binary64

def infinityRank : Nat := 0x7FF0000000000000

/-- Below this rank doubles are evenly spaced; from here on every `2 ^ 52` ranks double the
spacing. -/
def firstNormal : Nat := 0x10000000000000

/-- The value is `significand * 2 ^ exponent`, up to the sign. -/
def significand (x : Binary64) : Nat :=
  if x.rank < firstNormal then x.rank else firstNormal + x.rank % firstNormal

def exponent (x : Binary64) : Int :=
  if x.rank < firstNormal then -1074 else (x.rank / firstNormal : Nat) - 1075

/-- The place on the line of all doubles: the two zeros share one, and the order of places is the
order of values. -/
def place (x : Binary64) : Int :=
  if x.negative then -(x.rank : Int) else x.rank

def compare (x y : Binary64) : Ordering := Ord.compare x.place y.place

def sameValue (x y : Binary64) : Bool := x.place == y.place

def roundHalfEven (num den : Nat) : Nat :=
  let q := num / den
  let twice := 2 * (num % den)
  if twice < den ∨ (twice = den ∧ q % 2 = 0) then q else q + 1

def scaled (num den : Nat) (e : Int) : Nat × Nat :=
  if 0 ≤ e then (num, den <<< e.toNat) else (num <<< (-e).toNat, den)

/-- The exponent at which `num / den` has a significand of 53 bits, or the least exponent. -/
def exponentOfRatio (num den : Nat) : Int :=
  let e : Int := (num.log2 : Int) - den.log2 - 53
  let (n, d) := scaled num den e
  max (if n / d < 2 * firstNormal then e else e + 1) (-1074)

/-- The rank of the double nearest to `num / den`, of two nearest the one with an even
significand. A significand that rounds up to `2 ^ 53` lands on the first rank of the next
exponent by itself. -/
def rankOfRatio (num den : Nat) : Nat :=
  if num = 0 then 0
  else
    let e := exponentOfRatio num den
    let (n, d) := scaled num den e
    roundHalfEven n d + (e + 1074).toNat * firstNormal

def ofInt (n : Int) : Binary64 := ⟨decide (n < 0), rankOfRatio n.natAbs 1⟩

/-- The double nearest to `± digits * 10 ^ exponent`. An exponent so small that the value lies
below half of rank `1`, or so large that it lies beyond every double, is answered without
forming the power of ten. -/
def ofDecimal (negative : Bool) (digits : Nat) (exponent : Int) : Binary64 :=
  let magnitude : Int := (Nat.toDigits 10 digits).length + exponent
  let rank :=
    if digits = 0 ∨ magnitude < -330 then 0
    else if 330 < magnitude then infinityRank
    else if 0 ≤ exponent then rankOfRatio (digits * tenTo exponent.toNat) 1
    else rankOfRatio digits (tenTo (-exponent).toNat)
  ⟨negative, rank⟩

example : ofInt 1 = ⟨false, 0x3FF0000000000000⟩ := by decide +kernel
example : ofInt 9007199254740993 = ofInt 9007199254740992 := by decide +kernel
example : ofDecimal true 15 (-1) = ⟨true, 0x3FF8000000000000⟩ := by decide +kernel
example : ofDecimal false 5 (-324) = ⟨false, 1⟩ := by decide +kernel

end Binary64

end LiveQuery
