import TeachPendant.Number.Format

namespace TeachPendant.Number.Binary

variable {f : Format}

def neg (x : Binary f) : Binary f := ⟨!x.negative, x.code⟩

/-- A finite number as a multiple of `2 ^ exponent`, for an exponent not above its own. -/
def multiple (x : Binary f) (exponent : Int) : Int :=
  let n : Int := x.significand * 2 ^ (x.exponent - exponent).toNat
  if x.negative then -n else n

/-- An exact sum of zero is negative only when both terms are. -/
def add (x y : Binary f) : Binary f :=
  if x.isNaN || y.isNaN then nan
  else if x.isInfinite then
    if y.isInfinite && x.negative != y.negative then nan else x
  else if y.isInfinite then y
  else
    let q := min x.exponent y.exponent
    let s := x.multiple q + y.multiple q
    if s = 0 then zero (x.negative && y.negative)
    else round (s < 0) (s.natAbs * 2 ^ q.toNat) (2 ^ (-q).toNat)

def sub (x y : Binary f) : Binary f := x.add y.neg

def mul (x y : Binary f) : Binary f :=
  let negative := x.negative != y.negative
  if x.isNaN || y.isNaN then nan
  else if x.isInfinite then if y.isZero then nan else infinite negative
  else if y.isInfinite then if x.isZero then nan else infinite negative
  else round negative (x.numerator * y.numerator) (x.denominator * y.denominator)

/-- Division by zero gives an infinity, or no number for zero over zero. -/
def div (x y : Binary f) : Binary f :=
  let negative := x.negative != y.negative
  if x.isNaN || y.isNaN then nan
  else if x.isInfinite then if y.isInfinite then nan else infinite negative
  else if y.isInfinite then zero negative
  else if y.isZero then if x.isZero then nan else infinite negative
  else round negative (x.numerator * y.denominator) (x.denominator * y.numerator)

/-- The remainder of the division truncated toward zero; it keeps the sign of `x` and is exact. -/
def rem (x y : Binary f) : Binary f :=
  if x.isNaN || y.isNaN || x.isInfinite || y.isZero then nan
  else if y.isInfinite then x
  else
    round x.negative ((x.numerator * y.denominator) % (y.numerator * x.denominator))
      (x.denominator * y.denominator)

/-- Codes with the sign of the number; the two zeros share one rank. -/
def rank (x : Binary f) : Int := if x.negative then -(x.code : Int) else x.code

/-- Numeric equality: the zeros are equal, and what is no number equals nothing. -/
def equal (x y : Binary f) : Bool := !x.isNaN && !y.isNaN && x.rank == y.rank

def less (x y : Binary f) : Bool := !x.isNaN && !y.isNaN && x.rank < y.rank

def atMost (x y : Binary f) : Bool := !x.isNaN && !y.isNaN && x.rank ≤ y.rank

/-- The integer part, held within 32 signed bits; what is no number gives zero. -/
def toInt32 (x : Binary f) : Int :=
  if x.isNaN then 0
  else if x.isInfinite then if x.negative then -2 ^ 31 else 2 ^ 31 - 1
  else
    let n : Int := (x.numerator / x.denominator : Nat)
    if x.negative then max (-2 ^ 31) (-n) else min (2 ^ 31 - 1) n

/-- The least natural number not below `x`; zero for negative numbers. -/
def ceilNat (x : Binary f) : Nat :=
  if x.negative || !x.isFinite then 0
  else (x.numerator + x.denominator - 1) / x.denominator

end TeachPendant.Number.Binary
