import Scriptlet.Number.Basic

/-!
# Reading decimal numbers

A decimal has an optional sign, digits with at most one point among them, and an optional exponent. It denotes
the number nearest to its exact value.
-/

namespace Scriptlet.Number

/-- The rank nearest to `coefficient * 10 ^ exponent`, where the coefficient has at most `places` digits. Exponents
far out of range are settled without computing the power. -/
def rankOfDecimal (coefficient places : Nat) (exponent : Int) : Nat :=
  if coefficient = 0 then 0
  else if 400 < exponent then Magnitude.infinity
  else if exponent < -(400 + places : Nat) then 0
  else if 0 ≤ exponent then Magnitude.nearestRank (coefficient * Nat.pow 10 exponent.toNat) 1
  else Magnitude.nearestRank coefficient (Nat.pow 10 (-exponent).toNat)

/-- The coefficient that digits spell after a coefficient `n` and a block of `width` digits that spell `block`.
Digits are gathered in blocks of 256, so a long text takes few operations on large numbers. -/
def coefficientFrom (n block width : Nat) : List Char → Nat
  | [] => n * Nat.pow 10 width + block
  | c :: cs =>
    if width < 256 then coefficientFrom n (10 * block + (c.toNat - '0'.toNat)) (width + 1) cs
    else coefficientFrom (n * Nat.pow 10 width + block) (c.toNat - '0'.toNat) 1 cs

/-- The number that digits spell. -/
def coefficient (digits : List Char) : Nat :=
  coefficientFrom 0 0 0 digits

theorem coefficientFrom_eq (n block width : Nat) (cs : List Char) :
    coefficientFrom n block width cs = Nat.ofDigitChars 10 cs (n * Nat.pow 10 width + block) := by
  induction cs generalizing n block width with
  | nil => simp [coefficientFrom]
  | cons c cs ih =>
    unfold coefficientFrom
    split
    · rw [ih, Nat.ofDigitChars_cons]
      congr 1
      rw [Nat.pow_eq, Nat.pow_eq, Nat.pow_succ, ← Nat.mul_assoc]
      omega
    · rw [ih, Nat.ofDigitChars_cons, Nat.pow_eq, Nat.pow_eq]
      congr 1
      omega

/-- Blocks make no difference. -/
theorem coefficient_eq (digits : List Char) : coefficient digits = Nat.ofDigitChars 10 digits 0 := by
  simp [coefficient, coefficientFrom_eq]

/-- Splits off a leading sign; `true` for a minus. -/
def splitSign : List Char → Bool × List Char
  | '+' :: rest => (false, rest)
  | '-' :: rest => (true, rest)
  | cs => (false, cs)

/-- Splits off the digits after a leading point, if there is one. -/
def splitFraction : List Char → List Char × List Char
  | '.' :: rest => (rest.takeWhile Char.isDigit, rest.dropWhile Char.isDigit)
  | cs => ([], cs)

/-- Exponents of this size take no further digits. -/
def exponentBound : Nat :=
  Nat.pow 2 16

/-- The size of a written exponent. Digits are taken up until the bound is reached, and the rest are passed over:
only a coefficient of tens of thousands of digits could tell the difference. -/
def exponentSize (digits : List Char) : Nat :=
  digits.foldl (fun n c => if n < exponentBound then 10 * n + (c.toNat - '0'.toNat) else n) 0

/-- The exponent that ends a decimal: nothing, or `e` with an optional sign and at least one digit. -/
def exponent? (cs : List Char) : Option Int :=
  match cs with
  | [] => some 0
  | c :: rest =>
    let (minus, digits) := splitSign rest
    if (c == 'e' || c == 'E') && !digits.isEmpty && digits.all Char.isDigit then
      let n := exponentSize digits
      some (if minus then -(n : Int) else n)
    else none

/-- The rank denoted by a decimal without sign. -/
def decimalRank? (cs : List Char) : Option Nat :=
  let whole := cs.takeWhile Char.isDigit
  let (fraction, rest) := splitFraction (cs.dropWhile Char.isDigit)
  let digits := whole ++ fraction
  if digits.isEmpty then none
  else (exponent? rest).map fun e =>
    rankOfDecimal (coefficient digits) digits.length (e - fraction.length)

/-- The rank denoted by a word for infinity or for the undefined number, in any case. -/
def wordRank? (cs : List Char) : Option Nat :=
  let word := String.ofList (cs.map Char.toLower)
  if word = "inf" ∨ word = "infinity" then some Magnitude.infinity
  else if word = "nan" then some (Magnitude.infinity + Magnitude.binade / 2)
  else none

/-- Reads a number: a decimal, or a word for a number that is not finite. -/
def parse? (text : String) : Option Number :=
  let (minus, cs) := splitSign text.toList
  ((decimalRank? cs).or (wordRank? cs)).map (ofRank minus)

/-- Reads a finite number. -/
def parseFinite? (text : String) : Option Number :=
  (parse? text).filter finite

end Scriptlet.Number
