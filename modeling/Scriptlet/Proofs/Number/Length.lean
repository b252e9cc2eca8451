import Mathlib.Tactic
import Mathlib.Data.Nat.Digits.Defs
import Scriptlet.Proofs.Number.Text

/-!
# Lengths of texts of numbers

Numbers are written without exponents, so their texts can be long. But the printer tries few grids, all near the leading
digit, and failing these it writes the exact value, which has a known number of digits.
-/

namespace Scriptlet.Number

open Magnitude

/-! ## Values -/

/-- Enough decimal places for the units of any finite value. -/
def unitPlaces : Nat := 700

/-- Every finite value is below a power of two, in units. -/
theorem units_lt {r : Nat} (h : r < infinity) : units r < 2 ^ (3 * unitPlaces) := by
  have hscale : scale r ≤ 2045 := by
    have hdiv : r / binade < 2047 := Nat.div_lt_of_lt_mul (by rwa [Nat.mul_comm])
    rw [scale]; omega
  have hsig : significand r < 2 ^ 53 := by
    by_cases hr : r < binade
    · rw [significand, if_pos hr]
      exact hr.trans (by decide)
    · exact (significand_bounds (Nat.le_of_not_lt hr)).2
  calc units r < 2 ^ 53 * 2 ^ scale r := Nat.mul_lt_mul_of_pos_right hsig (Nat.two_pow_pos _)
    _ = 2 ^ (53 + scale r) := (Nat.pow_add 2 53 _).symm
    _ ≤ 2 ^ (3 * unitPlaces) := Nat.pow_le_pow_right (by decide) (by rw [unitPlaces]; omega)

theorem coarseExponent_bounds {r : Nat} (h : r < infinity) :
    -323 ≤ coarseExponent r ∧ coarseExponent r ≤ 310 := by
  have hlog : (units r).log2 ≤ 2100 := by
    by_cases h0 : units r = 0
    · simp [h0]
    · have hlt := (Nat.log2_lt h0).2 (units_lt h)
      rw [unitPlaces] at hlt
      omega
  simp only [coarseExponent, unitBits]
  omega

/-! ## Decimals -/

/-- The number of digits of a multiple of a power of ten, or of what is at most one more. -/
theorem length_toDigits_le {n places shift m : Nat} (hn : n < 2 ^ (3 * places)) (hm : m ≤ n * 10 ^ shift + 1) :
    (Nat.toDigits 10 m).length ≤ places + shift + 1 := by
  have hpow : 2 ^ (3 * places) ≤ 10 ^ places := by
    rw [Nat.pow_mul]
    exact Nat.pow_le_pow_left (by decide) places
  apply Nat.toDigits_length _ _ _ (Nat.succ_pos _)
  calc m ≤ n * 10 ^ shift + 1 := hm
    _ ≤ (n + 1) * 10 ^ shift := by
      rw [Nat.succ_mul]
      exact Nat.add_le_add_left (Nat.one_le_pow _ _ (by decide)) _
    _ ≤ 10 ^ places * 10 ^ shift := Nat.mul_le_mul_right _ (Nat.succ_le_of_lt (hn.trans_le hpow))
    _ = 10 ^ (places + shift) := (Nat.pow_add ..).symm
    _ < 10 ^ (places + shift + 1) := Nat.pow_lt_pow_right (by decide) (Nat.lt_succ_self _)

/-- Decimals with few digits and an exponent that is not far from zero. -/
structure Decimal.Short (d : Decimal) : Prop where
  digits : (Nat.toDigits 10 d.coefficient).length ≤ 1800
  exponent : d.exponent.natAbs ≤ 1074

theorem length_positional {d : Decimal} (h : d.Short) : d.positional.length ≤ 2876 := by
  have hdigits := h.digits
  have hexponent := h.exponent
  simp only [Decimal.positional]
  split
  · rw [List.length_append, List.length_replicate]
    omega
  · simp only [List.length_append, List.length_cons, List.length_take, List.length_drop, List.length_replicate]
    omega

theorem short_exactDecimal {r : Nat} (h : r < infinity) : (exactDecimal r).Short := by
  refine ⟨?_, by rw [exactDecimal, Int.natAbs_neg]; exact le_rfl⟩
  have hcoefficient : units r * Nat.pow 5 unitBits ≤ units r * 10 ^ unitBits + 1 := by
    rw [Nat.pow_eq]
    exact (Nat.mul_le_mul_left _ (Nat.pow_le_pow_left (by decide) _)).trans (Nat.le_succ _)
  exact (length_toDigits_le (units_lt h) hcoefficient).trans (by decide)

/-- A decimal on a grid is the value cut off there, or one step more. -/
theorem coefficient_of_onGrid? {r : Nat} {e : Int} {d : Decimal} (h : onGrid? r e = some d) :
    d.exponent = e ∧ d.coefficient ≤ units r * 10 ^ (-e).toNat + 1 := by
  unfold onGrid? at h
  rw [Nat.pow_eq, Nat.pow_eq] at h
  obtain ⟨⟨num, den⟩, hratio⟩ : ∃ p, p = if 0 ≤ e then (units r, one * 10 ^ e.toNat)
      else (units r * 10 ^ (-e).toNat, one) := ⟨_, rfl⟩
  have hnum : num ≤ units r * 10 ^ (-e).toNat := by
    split at hratio <;> cases hratio
    · exact Nat.le_mul_of_pos_right _ (Nat.pow_pos (by decide))
    · exact le_rfl
  have hquot : num / den ≤ units r * 10 ^ (-e).toNat := (Nat.div_le_self _ _).trans hnum
  rw [← hratio] at h
  simp only at h
  split at h
  · cases h
    exact ⟨rfl, Nat.succ_le_succ hquot⟩
  · split at h <;> cases h
    exact ⟨rfl, hquot.trans (Nat.le_succ _)⟩

theorem short_of_onGrid? {r : Nat} (hr : r < infinity) {e : Int} (he : -343 ≤ e ∧ e ≤ 310) {d : Decimal}
    (h : onGrid? r e = some d) : d.Short := by
  obtain ⟨hexponent, hcoefficient⟩ := coefficient_of_onGrid? h
  refine ⟨(length_toDigits_le (units_lt hr) hcoefficient).trans ?_, by rw [hexponent]; omega⟩
  rw [unitPlaces]
  omega

theorem short_searchGrid {hit : Int → Option Decimal} {last : Decimal} (hlast : last.Short) {tries : Nat} {e : Int}
    (hhit : ∀ e' d, e - tries < e' → e' ≤ e → hit e' = some d → d.Short) : (searchGrid hit last tries e).Short := by
  induction tries generalizing e with
  | zero => exact hlast
  | succ tries ih =>
      rw [searchGrid]
      split
      · rename_i d hd
        exact hhit e d (by omega) le_rfl hd
      · exact ih fun e' d hlow hhigh => hhit e' d (by omega) (by omega)

theorem short_shortest {r : Nat} (h : r < infinity) : (shortest r).Short := by
  obtain ⟨hlow, hhigh⟩ := coarseExponent_bounds h
  refine short_searchGrid (short_exactDecimal h) fun e d hlow' hhigh' => ?_
  exact short_of_onGrid? h ⟨by omega, by omega⟩

/-! ## Texts -/

theorem length_magnitudeText {r : Nat} (h : r < infinity) : (magnitudeText r).length ≤ 2876 := by
  rw [magnitudeText]
  split
  · decide
  · exact length_positional (short_shortest h)

theorem utf8ByteSize_ofList_le (cs : List Char) : (String.ofList cs).utf8ByteSize ≤ 4 * cs.length := by
  induction cs with
  | nil => simp
  | cons c cs ih =>
      have hc := c.utf8Size_le_four
      rw [String.ofList_cons, String.utf8ByteSize_append, String.utf8ByteSize_singleton, List.length_cons]
      omega

/-- The text of a finite number fits in the argument of an operation many times over. -/
theorem utf8ByteSize_text {x : Number} (h : finite x = true) : (text x).utf8ByteSize ≤ 12000 := by
  have hr : rank x < infinity := by simpa [finite] using h
  have hdef : undefined x = false := by
    simp only [undefined, decide_eq_false_iff_not]; omega
  have hlen := length_magnitudeText hr
  simp only [text, hdef, h, Bool.false_eq_true, if_false, if_true]
  refine (utf8ByteSize_ofList_le _).trans ?_
  split
  · rw [List.length_cons]
    omega
  · omega

end Scriptlet.Number
