import Scriptlet.Number.Magnitude

/-!
# Numbers

All numbers of the language are binary64. Arithmetic and comparison are those of `Float`; this module adds
the parts that look at a number's exact value: sign and rank, whole numbers, and rounding down.
-/

namespace Scriptlet

/-- Numbers of the language. -/
abbrev Number := Float

namespace Number

/-- The bit pattern of minus zero: the sign bit alone. -/
def signBit : UInt64 := 0x8000000000000000

/-- Whether the sign bit is set. -/
def negative (x : Number) : Bool :=
  signBit ≤ x.toBits

/-- The rank of the absolute value. -/
def rank (x : Number) : Nat :=
  (x.toBits % signBit).toNat

/-- The number with the given sign and rank of its absolute value. -/
def ofRank (negative : Bool) (rank : Nat) : Number :=
  Float.ofBits (if negative then signBit + UInt64.ofNat rank else UInt64.ofNat rank)

/-- Neither infinite nor undefined. -/
def finite (x : Number) : Bool :=
  rank x < Magnitude.infinity

/-- The undefined number, which differs from every number. -/
def undefined (x : Number) : Bool :=
  Magnitude.infinity < rank x

/-- The number nearest to a natural number. -/
def ofNat (n : Nat) : Number :=
  ofRank false (Magnitude.nearestRank n 1)

/-- A finite number without a fraction. -/
def whole (x : Number) : Bool :=
  finite x && Magnitude.isWhole (rank x)

/-- How many indices there are: an index is a 64-bit word. -/
def indexCount : Nat := Nat.pow 2 64

/-- A whole nonnegative number as an index. The number `2 ^ 64`, one past the last index, stands for the last. -/
def toIndex? (x : Number) : Option Nat :=
  let n := Magnitude.integerPart (rank x)
  if whole x && (!negative x || n == 0) && n ≤ indexCount then some (min n (indexCount - 1)) else none

/-- The greatest whole number that is not above `x`; a number that is not finite stays as it is. -/
def floor (x : Number) : Number :=
  if !finite x || whole x then x
  else
    let n := Magnitude.integerPart (rank x)
    if negative x then ofRank true (Magnitude.nearestRank (n + 1) 1) else ofNat n

/-- The remainder of division rounded down. -/
def rem (x y : Number) : Number :=
  x - floor (x / y) * y

end Number

end Scriptlet
