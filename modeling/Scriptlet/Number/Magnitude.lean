/-!
# Magnitudes of binary64 numbers

The nonnegative binary64 numbers, in ascending order, are numbered from zero: the *rank* of a number is its
bit pattern without the sign. Every finite one is a whole multiple of the smallest positive one, the *unit*
`2 ^ -1074`, so its exact value is a natural number of units.

`nearestRank` rounds a quotient of natural numbers to the nearest rank. Conversions to numbers go through it,
so each of them rounds exactly once.
-/

namespace Scriptlet.Magnitude

/-- The binary logarithm of the number of units in one. -/
def unitBits : Nat := 1074

/-- The number of units in one. -/
def one : Nat := Nat.pow 2 unitBits

/-- How many ranks share one spacing. -/
def binade : Nat := Nat.pow 2 52

/-- The rank of infinity; the ranks above it are no numbers. -/
def infinity : Nat := 2047 * binade

/-- The binary digits of a finite rank, as a natural number. -/
def significand (rank : Nat) : Nat :=
  if rank < binade then rank else binade + rank % binade

/-- How often the spacing at a rank is doubled: not in the first two binades, then once more with each binade. -/
def scale (rank : Nat) : Nat :=
  rank / binade - 1

/-- The exact value of a finite rank, in units. -/
def units (rank : Nat) : Nat :=
  significand rank * Nat.pow 2 (scale rank)

/-- The value of a finite rank rounded down to a natural number. -/
def integerPart (rank : Nat) : Nat :=
  if unitBits ≤ scale rank then significand rank <<< (scale rank - unitBits)
  else significand rank >>> (unitBits - scale rank)

/-- Whether the value of a finite rank is a natural number. -/
def isWhole (rank : Nat) : Bool :=
  unitBits ≤ scale rank || significand rank % Nat.pow 2 (unitBits - scale rank) == 0

/-- Rounding down drops the units that do not make up one. -/
theorem integerPart_eq (rank : Nat) : integerPart rank = units rank / one := by
  unfold integerPart units one
  generalize unitBits = bits
  simp only [Nat.pow_eq]
  split
  · rename_i h
    have h2 : 2 ^ scale rank = 2 ^ (scale rank - bits) * 2 ^ bits := by
      rw [← Nat.pow_add, Nat.sub_add_cancel h]
    rw [Nat.shiftLeft_eq, h2, ← Nat.mul_assoc, Nat.mul_div_cancel _ (Nat.two_pow_pos bits)]
  · rename_i h
    have h2 : 2 ^ bits = 2 ^ (bits - scale rank) * 2 ^ scale rank := by
      rw [← Nat.pow_add, Nat.sub_add_cancel (by omega)]
    rw [Nat.shiftRight_eq_div_pow, h2, Nat.mul_div_mul_right _ _ (Nat.two_pow_pos _)]

/-- A value is a natural number if its units make up ones. -/
theorem isWhole_iff (rank : Nat) : isWhole rank = true ↔ units rank % one = 0 := by
  unfold isWhole units one
  generalize unitBits = bits
  simp only [Nat.pow_eq]
  by_cases h : bits ≤ scale rank
  · have h2 : 2 ^ scale rank = 2 ^ (scale rank - bits) * 2 ^ bits := by
      rw [← Nat.pow_add, Nat.sub_add_cancel h]
    rw [h2, ← Nat.mul_assoc]
    simp [h]
  · have h2 : 2 ^ bits = 2 ^ (bits - scale rank) * 2 ^ scale rank := by
      rw [← Nat.pow_add, Nat.sub_add_cancel (by omega)]
    rw [h2, Nat.mul_mod_mul_right, Nat.mul_eq_zero, or_iff_left (Nat.ne_of_gt (Nat.two_pow_pos _))]
    simp [h]

/-- The quotient rounded to the nearest natural number, a half to the even neighbour. -/
def roundQuotient (num den : Nat) : Nat :=
  let q := num / den
  let r := num % den
  if 2 * r < den then q
  else if den < 2 * r then q + 1
  else q + q % 2

/-- The rank nearest to `num / den`, a half to the even neighbour. A value beyond the largest finite number by
half a spacing or more becomes infinite. -/
def nearestRank (num den : Nat) : Nat :=
  let scaled := num * one
  let shift := (scaled / den).log2 - 52
  min (shift * binade + roundQuotient scaled (den * Nat.pow 2 shift)) infinity

end Scriptlet.Magnitude
