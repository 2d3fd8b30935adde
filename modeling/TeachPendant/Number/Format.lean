namespace TeachPendant.Number

/-- Powers with a natural exponent, ahead of every other power in scope: `2 ^ n` is the same term
in each module, whatever that module imports. -/
@[default_instance 20000]
instance (priority := 2000) natPow {α : Type} [NatPow α] : Pow α Nat := instPowNat

/-- A format is given by the bits of its significand, the hidden one included, and of its
exponent. -/
structure Format where
  precision : Nat
  exponentBits : Nat
  deriving DecidableEq

namespace Format

/-- Bits of a magnitude code. -/
def width (f : Format) : Nat := f.precision + f.exponentBits - 1

/-- Codes per power of two. -/
def binade (f : Format) : Nat := 2 ^ (f.precision - 1)

/-- The code of infinity; larger codes stand for no number. -/
def infinity (f : Format) : Nat := (2 ^ f.exponentBits - 1) * f.binade

/-- The exponent of two that one unit of the least codes is worth. -/
def leastExponent (f : Format) : Int := 3 - 2 ^ (f.exponentBits - 1) - f.precision

end Format

/-- Numbers of 32 bits. -/
def single : Format := ⟨24, 8⟩

/-- Numbers of 64 bits. -/
def double : Format := ⟨53, 11⟩

/-- The nearest natural number to `num / den`; of two equally near ones, the even one. -/
def roundDiv (num den : Nat) : Nat :=
  let q := num / den
  let r := num % den
  if 2 * r < den then q
  else if den < 2 * r then q + 1
  else q + q % 2

/-- The exponent of the largest power of two not above `num / den`, for positive arguments. -/
def binaryExponent (num den : Nat) : Int :=
  let e : Int := (Nat.log2 num : Int) - Nat.log2 den
  if num * 2 ^ (-e).toNat < den * 2 ^ e.toNat then e - 1 else e

/-- A sign and a magnitude. Codes count the magnitudes of the format upward from zero, and the first
one past the finite ones is infinity. -/
structure Binary (f : Format) where
  negative : Bool
  code : Fin (2 ^ f.width)
  deriving DecidableEq

abbrev Single := Binary single

abbrev Double := Binary double

namespace Binary

variable {f : Format}

def ofCode (negative : Bool) (code : Nat) : Binary f :=
  ⟨negative, Fin.ofNat (2 ^ f.width) code⟩

def zero (negative : Bool) : Binary f := ofCode negative 0

def infinite (negative : Bool) : Binary f := ofCode negative f.infinity

/-- The quiet pattern that stands for "no number" in results. -/
def nan : Binary f := ofCode false (f.infinity + f.binade / 2)

instance : Inhabited (Binary f) := ⟨zero false⟩

/-- The bit pattern: the sign above the magnitude code. -/
def toBits (x : Binary f) : Nat := (if x.negative then 2 ^ f.width else 0) + x.code

def ofBits (bits : Nat) : Binary f := ofCode (bits / 2 ^ f.width % 2 == 1) bits

def isNaN (x : Binary f) : Bool := f.infinity < x.code

def isInfinite (x : Binary f) : Bool := x.code == f.infinity

def isFinite (x : Binary f) : Bool := x.code < f.infinity

def isZero (x : Binary f) : Bool := x.code == 0

/-- A finite magnitude is `significand * 2 ^ exponent`. -/
def significand (x : Binary f) : Nat :=
  if x.code < f.binade then x.code else x.code % f.binade + f.binade

def exponent (x : Binary f) : Int :=
  if x.code < f.binade then f.leastExponent else f.leastExponent + (x.code / f.binade : Nat) - 1

/-- The finite magnitude as a fraction. -/
def numerator (x : Binary f) : Nat := x.significand * 2 ^ x.exponent.toNat

def denominator (x : Binary f) : Nat := 2 ^ (-x.exponent).toNat

/-- The code of the magnitude nearest to `num / den`. A significand that rounds up to the next power
of two carries into the next code by itself, as codes are consecutive. -/
def roundCode (f : Format) (num den : Nat) : Nat :=
  if num = 0 then 0
  else
    let q := max f.leastExponent (binaryExponent num den - f.precision + 1)
    let m := roundDiv (num * 2 ^ (-q).toNat) (den * 2 ^ q.toNat)
    min f.infinity ((q - f.leastExponent).toNat * f.binade + m)

/-- The number nearest to `num / den` with the given sign; magnitudes past the last finite one
become infinite. -/
def round (negative : Bool) (num den : Nat) : Binary f := ofCode negative (roundCode f num den)

def ofNat (n : Nat) : Binary f := round false n 1

/-- Zero comes out positive. -/
def ofInt (z : Int) : Binary f := round (z < 0) z.natAbs 1

/-- The nearest number of another format. -/
def convert {g : Format} (x : Binary f) : Binary g :=
  if x.isNaN then nan
  else if x.isInfinite then infinite x.negative
  else round x.negative x.numerator x.denominator

end Binary

end TeachPendant.Number
