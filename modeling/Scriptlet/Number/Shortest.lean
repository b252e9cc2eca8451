import Scriptlet.Number.Decimal

/-!
# Writing numbers

A finite number is written with the fewest digits that read back as the same number; of several such decimals
the nearest is taken, and of two equally near ones the larger. There is never an exponent, and a whole number has
no point.
-/

namespace Scriptlet.Number

/-- A decimal value `coefficient * 10 ^ exponent`. -/
structure Decimal where
  coefficient : Nat
  exponent : Int
deriving DecidableEq

namespace Decimal

/-- Numerator and denominator of a decimal's exact value. -/
def ratio (d : Decimal) : Nat × Nat :=
  if 0 ≤ d.exponent then (d.coefficient * Nat.pow 10 d.exponent.toNat, 1)
  else (d.coefficient, Nat.pow 10 (-d.exponent).toNat)

/-- The rank nearest to a decimal. -/
def rank (d : Decimal) : Nat :=
  Magnitude.nearestRank d.ratio.1 d.ratio.2

/-- The decimal written out in digits, with a point if its exponent is negative. -/
def positional (d : Decimal) : List Char :=
  let digits := Nat.toDigits 10 d.coefficient
  if 0 ≤ d.exponent then digits ++ List.replicate d.exponent.toNat '0'
  else
    let places := (-d.exponent).toNat
    let padded := List.replicate (places + 1 - digits.length) '0' ++ digits
    padded.take (padded.length - places) ++ '.' :: padded.drop (padded.length - places)

end Decimal

/-- The exact decimal value of a rank. -/
def exactDecimal (rank : Nat) : Decimal :=
  ⟨Magnitude.units rank * Nat.pow 5 Magnitude.unitBits, -Magnitude.unitBits⟩

/-- The decimal on the grid of step `10 ^ exponent` that is nearest to a rank among the two neighbours which read
back as that rank. Equally near neighbours resolve upward. -/
def onGrid? (rank : Nat) (exponent : Int) : Option Decimal :=
  let (num, den) :=
    if 0 ≤ exponent then (Magnitude.units rank, Magnitude.one * Nat.pow 10 exponent.toNat)
    else (Magnitude.units rank * Nat.pow 10 (-exponent).toNat, Magnitude.one)
  let below : Decimal := ⟨num / den, exponent⟩
  let above : Decimal := ⟨num / den + 1, exponent⟩
  let preferAbove := den ≤ 2 * (num % den)
  if above.rank = rank ∧ (preferAbove ∨ below.rank ≠ rank) then some above
  else if below.rank = rank then some below
  else none

/-- The first hit on finer and finer grids, starting at the given exponent; if there is none, the decimal `last`. -/
def searchGrid (hit : Int → Option Decimal) (last : Decimal) : Nat → Int → Decimal
  | 0, _ => last
  | tries + 1, exponent =>
    match hit exponent with
    | some d => d
    | none => searchGrid hit last tries (exponent - 1)

/-- An exponent that is the one of the leading digit of a positive rank, or one more. -/
def coarseExponent (rank : Nat) : Int :=
  ((Magnitude.units rank).log2 - Magnitude.unitBits : Int) * 30103 / 100000 + 1

/-- The shortest decimal that reads back as a positive finite rank. Seventeen digits are always enough. -/
def shortest (rank : Nat) : Decimal :=
  searchGrid (onGrid? rank) (exactDecimal rank) 20 (coarseExponent rank)

/-- The digits of a finite rank. -/
def magnitudeText (rank : Nat) : List Char :=
  if rank = 0 then ['0'] else (shortest rank).positional

/-- The text of a number. -/
def text (x : Number) : String :=
  if undefined x then "NaN"
  else
    let digits := if finite x then magnitudeText (rank x) else "inf".toList
    String.ofList (if negative x then '-' :: digits else digits)

end Scriptlet.Number
