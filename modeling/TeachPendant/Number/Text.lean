import TeachPendant.Number.Shortest

namespace TeachPendant.Number

/-- The decimal digits of a natural number. -/
def digitChars (n : Nat) : List Char := Nat.toDigits 10 n

def zeros (n : Nat) : List Char := List.replicate n '0'

/-- A decimal written positionally; `point` is what follows an integral value. -/
def Decimal.positional (d : Decimal) (point : List Char) : List Char :=
  let ds := digitChars d.digits
  if 0 ≤ d.exponent then ds ++ zeros d.exponent.toNat ++ point
  else
    let places := (-d.exponent).toNat
    if places < ds.length then
      ds.take (ds.length - places) ++ '.' :: ds.drop (ds.length - places)
    else '0' :: '.' :: zeros (places - ds.length) ++ ds

/-- A decimal written with one digit before the point and an exponent of two digits or more at its
large end, one at its small end; the sign of the exponent is always written. -/
def Decimal.scientific (d : Decimal) : List Char :=
  let ds := digitChars d.digits
  let e := d.exponent + ds.length - 1
  let mantissa := match ds with
    | [] => []
    | [c] => [c]
    | c :: rest => c :: '.' :: rest
  mantissa ++ 'e' :: (if e < 0 then '-' else '+') :: digitChars e.natAbs

/-- The exponents of the leading digit for which JSON numbers are written positionally. -/
def plainExponents (e : Int) : Bool := -6 ≤ e && e ≤ 12

namespace Binary

variable {f : Format}

def signed (x : Binary f) (text : List Char) : List Char :=
  if x.negative then '-' :: text else text

def displayChars (x : Binary f) : List Char :=
  if x.isNaN then ['N', 'a', 'N']
  else if x.isInfinite then x.signed ['i', 'n', 'f']
  else x.signed ((x.shortest .awayFromZero).positional [])

/-- The shortest digits, always positional and without a point after an integral value. -/
def display (x : Binary f) : String := String.ofList x.displayChars

/-- The shortest digits, with a point or an exponent. What JSON has no number for is `null`. -/
def inJson (x : Binary f) : List Char :=
  if !x.isFinite then ['n', 'u', 'l', 'l']
  else
    let d := x.shortest .toEven
    let e := d.exponent + digitCount d.digits - 1
    x.signed (if plainExponents e then d.positional ['.', '0'] else d.scientific)

/-- Two places after the point; the exact value is rounded and a half goes to the even neighbour. -/
def twoPlaces (x : Binary f) : String :=
  if !x.isFinite then x.display
  else
    let hundredths := roundDiv (x.numerator * 100) x.denominator
    let ds := digitChars hundredths
    let padded := zeros (3 - ds.length) ++ ds
    let point := padded.length - 2
    String.ofList (x.signed (padded.take point ++ '.' :: padded.drop point))

end Binary

end TeachPendant.Number
