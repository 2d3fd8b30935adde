import TeachPendant.Number.Format

namespace TeachPendant.Number

/-- The value `digits * 10 ^ exponent`. -/
structure Decimal where
  digits : Nat
  exponent : Int
  deriving DecidableEq

/-- Which of two equally near decimals is taken. -/
inductive Tie
  | toEven
  | awayFromZero
  deriving DecidableEq

/-- How many decimal digits a number is written with. -/
def digitCount (n : Nat) : Nat := (Nat.toDigits 10 n).length

namespace Binary

variable {f : Format}

/-- Four times the significand, the unit in which the midpoints between neighbours are whole. -/
def quarters (x : Binary f) : Nat := 4 * x.significand

/-- The midpoint below, in quarters: the neighbour below is nearer where the exponent steps. -/
def lowerQuarters (x : Binary f) : Nat :=
  if x.significand = f.binade ∧ f.binade < x.code then x.quarters - 1 else x.quarters - 2

def upperQuarters (x : Binary f) : Nat := x.quarters + 2

/-- Whether `digits * 10 ^ exponent` rounds to the finite magnitude of `x`. Midpoints belong to the
even significand. -/
def readsBack (x : Binary f) (d : Decimal) : Bool :=
  let q := x.exponent - 2
  let scaled := d.digits * 10 ^ d.exponent.toNat * 2 ^ (-q).toNat
  let unit := 2 ^ q.toNat * 10 ^ (-d.exponent).toNat
  let low := x.lowerQuarters * unit
  let high := x.upperQuarters * unit
  if x.significand % 2 = 0 then low ≤ scaled && scaled ≤ high
  else low < scaled && scaled < high

/-- On the grid of `10 ^ exponent`, the point taken: the nearer of the neighbours of the magnitude
that read back. -/
def onGrid (x : Binary f) (tie : Tie) (exponent : Int) : Option Decimal :=
  let num := x.numerator * 10 ^ (-exponent).toNat
  let den := x.denominator * 10 ^ exponent.toNat
  let below : Decimal := ⟨num / den, exponent⟩
  let above : Decimal := ⟨num / den + 1, exponent⟩
  let rest := 2 * (num % den)
  match x.readsBack below, x.readsBack above with
  | false, false => none
  | true, false => some below
  | false, true => some above
  | true, true =>
    if rest < den then some below
    else if den < rest then some above
    else match tie with
      | .awayFromZero => some above
      | .toEven => some (if below.digits % 2 = 0 then below else above)

/-- Tries the grids from `exponent` downward. The exact decimal ends a search that finds nothing. -/
def search (x : Binary f) (tie : Tie) : Nat → Int → Decimal
  | 0, _ =>
    if 0 ≤ x.exponent then ⟨x.numerator, 0⟩
    else ⟨x.significand * 5 ^ (-x.exponent).toNat, x.exponent⟩
  | tries + 1, exponent =>
    match x.onGrid tie exponent with
    | some d => d
    | none => search x tie tries (exponent - 1)

/-- The shortest decimal of a finite magnitude. -/
def shortest (x : Binary f) (tie : Tie) : Decimal :=
  if x.isZero then ⟨0, 0⟩
  else
    let top : Int := (digitCount x.numerator : Int) - digitCount x.denominator + 1
    x.search tie 24 top

end Binary

end TeachPendant.Number
