import TeachPendant.Number.Arithmetic

namespace TeachPendant.Number

/-- The largest significand kept while reading. -/
def significandLimit : Nat := 2 ^ 64 - 1

/-- A numeral as written: sign, integer digits, digits after the point, exponent. -/
structure Numeral where
  negative : Bool
  whole : List Nat
  fraction : Option (List Nat)
  exponent : Option Int
  deriving DecidableEq

/-- Takes digits in as long as the significand stays within its limit; gives the significand and
the digits left over. -/
def absorb : Nat → List Nat → Nat × List Nat
  | s, [] => (s, [])
  | s, d :: ds => if significandLimit < s * 10 + d then (s, d :: ds) else absorb (s * 10 + d) ds

def powerOfTen (n : Nat) : Double := .round false (10 ^ n) 1

/-- `s * 10 ^ e` with the operations that the reader makes: exponents below -308 are worked off in
steps of 308, each a rounded division. Nothing if the value is past the largest number. -/
def scale : Nat → Double → Int → Option Double
  | 0, x, _ => some x
  | steps + 1, x, e =>
    if 0 ≤ e then
      if e ≤ 308 then
        let y := x.mul (powerOfTen e.toNat)
        if y.isInfinite then none else some y
      else if x.isZero then some x else none
    else if -308 ≤ e then some (x.div (powerOfTen (-e).toNat))
    else if x.isZero then some x
    else scale steps (x.div (powerOfTen 308)) (e + 308)

/-- The least and largest exponents that matter; a numeral beyond them is zero or too large. -/
def clampExponent (e : Int) : Int := max (-2 ^ 31) (min (2 ^ 31 - 1) e)

namespace Numeral

/-- Written without point and exponent. -/
def isWhole (n : Numeral) : Bool := n.fraction.isNone && n.exponent.isNone

def natural (n : Numeral) : Nat := n.whole.foldl (fun s d => s * 10 + d) 0

/-- The significand and the exponent of ten that the digits give. Digits past the limit are dropped:
those before the point still count for the exponent, and after dropping one behind the point all
further ones are skipped. -/
def parts (n : Numeral) : Nat × Int :=
  let (s, surplus) := absorb 0 n.whole
  let (s', skipped) := absorb s (n.fraction.getD [])
  (s', (surplus.length : Int) - ((n.fraction.getD []).length - skipped.length : Nat))

/-- The 64-bit number of a numeral. An exponent too long to count gives zero or nothing. -/
def toDouble? (n : Numeral) : Option Double :=
  let (s, e) := n.parts
  let written := n.exponent.getD 0
  if written.natAbs < 2 ^ 31 then
    (scale 20 (.ofNat s) (clampExponent (clampExponent e + written))).map
      fun x => if n.negative then x.neg else x
  else if s ≠ 0 && 0 < written then none
  else some (.zero n.negative)

end Numeral

end TeachPendant.Number
