import Mathlib.Tactic
import Scriptlet.Proofs.Number.Nearest
import Scriptlet.Number.Shortest

/-!
# Texts of numbers

Reading the text of a finite number gives the number. The printer only ever writes decimals that it has seen to round to
the rank in question, or the exact value; so what is left is that writing a decimal out in digits and reading them
back does not change its value.
-/

namespace Scriptlet.Number

open Magnitude

/-! ## The decimal that is written -/

theorem rank_exactDecimal {r : Nat} (h : r < infinity) : (exactDecimal r).rank = r := by
  have hneg : ¬ (0 : Int) ≤ -(unitBits : Int) := by decide
  have hplaces : (-(-(unitBits : Int))).toNat = unitBits := by simp
  simp only [Decimal.rank, Decimal.ratio, exactDecimal, Nat.pow_eq, hneg, if_false, hplaces]
  apply nearestRank_of_exact h (Nat.pow_pos (by decide))
  rw [Nat.mul_assoc, one_eq, ← Nat.mul_pow]

theorem rank_of_onGrid? {r : Nat} {e : Int} {d : Decimal} (h : onGrid? r e = some d) : d.rank = r := by
  unfold onGrid? at h
  generalize (if 0 ≤ e then (units r, one * 10 ^ e.toNat) else (units r * 10 ^ (-e).toNat, one)) = p at h
  obtain ⟨num, den⟩ := p
  simp only at h
  split at h
  · rename_i hc
    cases h; exact hc.1
  · split at h
    · rename_i hb
      cases h; exact hb
    · cases h

theorem rank_searchGrid {r : Nat} {hit : Int → Option Decimal} {last : Decimal}
    (hhit : ∀ e d, hit e = some d → d.rank = r) (hlast : last.rank = r) (tries : Nat) (e : Int) :
    (searchGrid hit last tries e).rank = r := by
  induction tries generalizing e with
  | zero => simp only [searchGrid, hlast]
  | succ tries ih =>
      simp only [searchGrid]
      split
      · rename_i hd
        exact hhit _ _ hd
      · exact ih _

theorem rank_shortest {r : Nat} (h : r < infinity) : (shortest r).rank = r :=
  rank_searchGrid (fun _ _ => rank_of_onGrid?) (rank_exactDecimal h) _ _

/-! ## Reading digits -/

theorem takeWhile_digits {ds : List Char} (h : ∀ c ∈ ds, c.isDigit = true) (rest : List Char)
    (hrest : ∀ c, rest.head? = some c → c.isDigit = false) :
    (ds ++ rest).takeWhile Char.isDigit = ds ∧ (ds ++ rest).dropWhile Char.isDigit = rest := by
  have htail : rest.takeWhile Char.isDigit = [] ∧ rest.dropWhile Char.isDigit = rest := by
    cases rest with
    | nil => simp
    | cons c cs => simp [hrest c rfl]
  rw [List.takeWhile_append_of_pos h, List.dropWhile_append_of_pos h, htail.1, htail.2]
  simp

/-- The rank of zero is zero however it is written. -/
theorem nearestRank_zero (den : Nat) : nearestRank 0 den = 0 := by
  simp [nearestRank, roundQuotient]

/-- Digits alone denote the number that they spell. -/
theorem decimalRank?_whole {ds : List Char} (h : ∀ c ∈ ds, c.isDigit = true) (hne : ds ≠ []) :
    decimalRank? ds = some (nearestRank (Nat.ofDigitChars 10 ds 0) 1) := by
  obtain ⟨htake, hdrop⟩ := takeWhile_digits h [] (by simp)
  rw [List.append_nil] at htake hdrop
  simp only [decimalRank?, htake, hdrop, splitFraction, List.append_nil, exponent?, coefficient_eq,
    List.isEmpty_eq_false_iff.mpr hne, Bool.false_eq_true, if_false, Option.map_some, rankOfDecimal]
  by_cases h0 : Nat.ofDigitChars 10 ds 0 = 0
  · simp [h0, nearestRank_zero]
  · simp [h0]

/-- Digits with a point among them denote what they spell without it, divided by the power of ten that the digits after
the point call for. -/
theorem decimalRank?_point {ds fs : List Char} (hds : ∀ c ∈ ds, c.isDigit = true)
    (hfs : ∀ c ∈ fs, c.isDigit = true) (hne : fs ≠ []) :
    decimalRank? (ds ++ '.' :: fs)
      = some (nearestRank (Nat.ofDigitChars 10 (ds ++ fs) 0) (10 ^ fs.length)) := by
  obtain ⟨htake, hdrop⟩ := takeWhile_digits hds ('.' :: fs) (by simp)
  obtain ⟨htake', hdrop'⟩ := takeWhile_digits hfs [] (by simp)
  rw [List.append_nil] at htake' hdrop'
  have hlen : 0 < fs.length := List.length_pos_iff.mpr hne
  have hempty : (ds ++ fs).isEmpty = false := by simp [hne]
  simp only [decimalRank?, htake, hdrop, splitFraction, htake', hdrop', exponent?, coefficient_eq, hempty,
    Bool.false_eq_true, if_false, Option.map_some, rankOfDecimal, List.length_append]
  by_cases h0 : Nat.ofDigitChars 10 (ds ++ fs) 0 = 0
  · simp [h0, nearestRank_zero]
  · have hexp : (-((0 : Int) - fs.length)).toNat = fs.length := by omega
    rw [if_neg h0, if_neg (by omega), if_neg (by omega), if_neg (by omega), hexp, Nat.pow_eq]

/-! ## Writing digits -/

theorem isDigit_toDigits (n : Nat) : ∀ c ∈ Nat.toDigits 10 n, c.isDigit = true :=
  fun _ hc => Nat.isDigit_of_mem_toDigits (by decide) (by decide) hc

theorem isDigit_zeros (n : Nat) : ∀ c ∈ List.replicate n '0', c.isDigit = true := by
  intro c hc
  rw [List.eq_of_mem_replicate hc]; rfl

/-- A decimal written out in digits reads back as the same decimal. -/
theorem decimalRank?_positional (d : Decimal) : decimalRank? d.positional = some d.rank := by
  have hdigits := isDigit_toDigits d.coefficient
  by_cases he : 0 ≤ d.exponent
  · have hall : ∀ c ∈ Nat.toDigits 10 d.coefficient ++ List.replicate d.exponent.toNat '0',
        c.isDigit = true := by
      intro c hc
      rcases List.mem_append.mp hc with hc | hc
      · exact hdigits c hc
      · exact isDigit_zeros _ c hc
    simp only [Decimal.positional, Decimal.rank, Decimal.ratio, Nat.pow_eq, he, if_true]
    rw [decimalRank?_whole hall (by simp [Nat.toDigits_ne_nil]), Nat.ofDigitChars_append,
      Nat.ofDigitChars_ten_toDigits, Nat.ofDigitChars_replicate_zero, Nat.mul_comm]
  · let places := (-d.exponent).toNat
    let padded := List.replicate (places + 1 - (Nat.toDigits 10 d.coefficient).length) '0'
      ++ Nat.toDigits 10 d.coefficient
    have hplaces : 0 < places := by simp only [places]; omega
    have hlen : places < padded.length := by
      simp only [padded, List.length_append, List.length_replicate]; omega
    have hall : ∀ c ∈ padded, c.isDigit = true := by
      intro c hc
      rcases List.mem_append.mp hc with hc | hc
      · exact isDigit_zeros _ c hc
      · exact hdigits c hc
    have hdrop : (padded.drop (padded.length - places)).length = places := by
      rw [List.length_drop]; omega
    have hread := decimalRank?_point
      (fun c (hc : c ∈ padded.take (padded.length - places)) => hall c (List.mem_of_mem_take hc))
      (fun c hc => hall c (List.mem_of_mem_drop hc))
      (List.ne_nil_of_length_pos (by rw [hdrop]; exact hplaces))
    rw [List.take_append_drop, hdrop, Nat.ofDigitChars_append, Nat.ofDigitChars_replicate_zero,
      Nat.mul_zero, Nat.ofDigitChars_ten_toDigits] at hread
    simp only [Decimal.positional, Decimal.rank, Decimal.ratio, Nat.pow_eq, he, if_false]
    exact hread

/-! ## Numbers -/

theorem decimalRank?_magnitudeText {r : Nat} (h : r < infinity) : decimalRank? (magnitudeText r) = some r := by
  by_cases h0 : r = 0
  · simp only [magnitudeText, h0, if_true]
    decide +kernel
  · rw [magnitudeText, if_neg h0, decimalRank?_positional, rank_shortest h]

/-- The text of a finite number starts with a digit or with a minus sign. -/
theorem splitSign_magnitudeText {r : Nat} (h : r < infinity) (minus : Bool) :
    splitSign (if minus then '-' :: magnitudeText r else magnitudeText r) = (minus, magnitudeText r) := by
  cases minus with
  | true => rfl
  | false =>
      -- a sign in front would keep the digits from being read
      have hread := decimalRank?_magnitudeText h
      generalize magnitudeText r = cs at hread
      simp only [Bool.false_eq_true, if_false]
      rw [splitSign]
      · rintro rest rfl
        revert hread
        simp [decimalRank?, splitFraction]
      · rintro rest rfl
        revert hread
        simp [decimalRank?, splitFraction]

/-- Reading the text of a finite number gives the number. -/
theorem parseFinite?_text {x : Number} (h : finite x = true) : parseFinite? (text x) = some x := by
  have hr : rank x < infinity := by simpa [finite] using h
  have hdef : undefined x = false := by
    simp only [undefined, decide_eq_false_iff_not]; omega
  have htext : (text x).toList
      = if negative x then '-' :: magnitudeText (rank x) else magnitudeText (rank x) := by
    simp [text, hdef, h]
  rw [parseFinite?, parse?, htext, splitSign_magnitudeText hr]
  simp only [decimalRank?_magnitudeText hr, Option.some_or, Option.map_some, ofRank_rank h]
  simp [h]

end Scriptlet.Number
