import Mathlib.Tactic
import Scriptlet.Proofs.Number.Text
import Scriptlet.Proofs.Text.Classes

/-!
# The range of numbers

Rounding gives a finite number exactly for the values below a bound that lies half a spacing beyond the largest finite
number. So a decimal without sign or exponent is read as a finite number exactly if its digits are ASCII and its value
is below this bound.
-/

namespace Scriptlet

/-! ## Rounding -/

namespace Magnitude

/-- The least value that is rounded to infinity: half a spacing beyond the largest finite number. -/
def overflow : Nat := (2 ^ 54 - 1) * 2 ^ 970

/-- Below an even number the half is rounded up to it. -/
theorem roundQuotient_lt_iff {n d : Nat} (hd : 0 < d) (j : Nat) :
    roundQuotient n d < 2 * j + 2 ↔ 2 * n < (4 * j + 3) * d := by
  have hsplit := Nat.div_add_mod n d
  have hmod := Nat.mod_lt n hd
  rw [roundQuotient]
  generalize n / d = q at hsplit ⊢
  generalize n % d = r at hsplit hmod ⊢
  rcases Nat.lt_trichotomy q (2 * j + 1) with h | rfl | h
  · have hle : d * (q + 1) ≤ d * (2 * j + 1) := Nat.mul_le_mul_left d h
    constructor
    · intro _
      nlinarith
    · intro _
      split_ifs <;> omega
  · split_ifs
    · exact iff_of_true (by omega) (by nlinarith)
    · exact iff_of_false (by omega) (by nlinarith)
    · exact iff_of_false (by omega) (by nlinarith)
  · have hle : d * (2 * j + 2) ≤ d * q := Nat.mul_le_mul_left d h
    constructor
    · split_ifs <;> omega
    · intro _
      nlinarith

/-- The spacing is chosen such that 53 digits suffice, and none of them is wasted unless the spacing is the smallest. -/
theorem spacing_bounds (n : Nat) {den : Nat} (hden : 0 < den) {shift : Nat} (hshift : (n / den).log2 - 52 = shift) :
    n < 2 * binade * (den * 2 ^ shift) ∧ (0 < shift → binade * (den * 2 ^ shift) ≤ n) := by
  have hdigits : ∀ k, binade * (den * 2 ^ k) = 2 ^ (52 + k) * den := by
    intro k
    rw [binade, Nat.pow_eq, Nat.pow_add]
    ring
  constructor
  · have hlog : n / den < 2 ^ ((n / den).log2 + 1) := Nat.lt_log2_self
    have hpow : 2 ^ ((n / den).log2 + 1) ≤ 2 ^ (53 + shift) := Nat.pow_le_pow_right (by decide) (by omega)
    calc
      n < 2 ^ (53 + shift) * den := (Nat.div_lt_iff_lt_mul hden).1 (hlog.trans_le hpow)
      _ = 2 * (2 ^ (52 + shift) * den) := by rw [show 53 + shift = 52 + shift + 1 by omega, Nat.pow_succ]; ring
      _ = 2 * binade * (den * 2 ^ shift) := by rw [← hdigits, Nat.mul_assoc]
  · intro hpos
    have hne : n / den ≠ 0 := by
      intro h0
      rw [h0, Nat.log2_zero] at hshift
      omega
    have hlog : 2 ^ (52 + shift) ≤ n / den := by
      rw [show 52 + shift = (n / den).log2 by omega]
      exact Nat.log2_self_le hne
    rw [hdigits]
    exact (Nat.le_div_iff_mul_le hden).1 hlog

theorem lt_overflow_iff (num den : Nat) :
    num < overflow * den ↔ num * one < (2 ^ 54 - 1) * (den * 2 ^ 2044) := by
  have hpow : overflow * den * one = (2 ^ 54 - 1) * (den * 2 ^ 2044) := by
    rw [overflow, one_eq, show 2044 = 970 + unitBits from rfl]
    -- the powers stay symbols: neither is ever computed
    generalize unitBits = bits
    generalize 970 = places
    rw [Nat.pow_add]
    ring
  rw [← hpow]
  exact (Nat.mul_lt_mul_right one_pos).symm

theorem spacing_cases (den shift : Nat) :
    shift ≤ 2044 ∧ den * 2 ^ shift ≤ den * 2 ^ 2044 ∨ shift = 2045 ∧ den * 2 ^ shift = 2 * (den * 2 ^ 2044)
      ∨ 2046 ≤ shift ∧ 4 * (den * 2 ^ 2044) ≤ den * 2 ^ shift := by
  generalize hlast : 2044 = last
  rcases Nat.lt_trichotomy shift (last + 1) with h | rfl | h
  · exact .inl ⟨by omega, Nat.mul_le_mul_left den (Nat.pow_le_pow_right (by decide) (by omega))⟩
  · refine .inr (.inl ⟨by omega, ?_⟩)
    rw [Nat.pow_succ]
    ring
  · refine .inr (.inr ⟨by omega, ?_⟩)
    calc
      4 * (den * 2 ^ last) = den * 2 ^ (last + 2) := by rw [Nat.pow_add]; ring
      _ ≤ den * 2 ^ shift := Nat.mul_le_mul_left den (Nat.pow_le_pow_right (by decide) h)

theorem nearestRank_le (num den : Nat) : nearestRank num den ≤ infinity :=
  Nat.min_le_right _ _

/-- Rounding gives a finite number exactly below the bound. -/
theorem nearestRank_lt_iff (num : Nat) {den : Nat} (hden : 0 < den) :
    nearestRank num den < infinity ↔ num < overflow * den := by
  rw [lt_overflow_iff, nearestRank]
  generalize num * one = n
  generalize hshift : (n / den).log2 - 52 = shift
  obtain ⟨hlt, hle⟩ := spacing_bounds n hden hshift
  have hround := roundQuotient_lt_iff (n := n) (Nat.mul_pos hden (Nat.two_pow_pos shift))
  have hcases := spacing_cases den shift
  rw [min_lt_iff, or_iff_left (lt_irrefl _), infinity, Nat.pow_eq]
  clear hshift
  generalize den * 2 ^ shift = d at hlt hle hround hcases ⊢
  generalize den * 2 ^ 2044 = last at hcases ⊢
  rw [show binade = 2 ^ 52 from rfl] at hlt hle ⊢
  rcases hcases with ⟨hshift, hd⟩ | ⟨rfl, rfl⟩ | ⟨hshift, hd⟩
  · have hsmall := (hround (2 ^ 52)).2 (by omega)
    exact iff_of_true (by omega) (by omega)
  · -- with the largest spacing it depends on the last digit
    have hlast := hround (2 ^ 52 - 1)
    omega
  · have hfar := hle (by omega)
    have hlarge := mt (hround (2 ^ 51 - 1)).1 (by omega)
    exact iff_of_false (by omega) (by omega)

end Magnitude

namespace Number

open Magnitude

/-! ## Reading -/

theorem le_of_decimalRank? {cs : List Char} {r : Nat} (h : decimalRank? cs = some r) : r ≤ infinity := by
  have hrank : ∀ n places e, rankOfDecimal n places e ≤ infinity := by
    intro n places e
    rw [rankOfDecimal]
    split_ifs
    · exact Nat.zero_le _
    · exact le_rfl
    · exact Nat.zero_le _
    · exact nearestRank_le _ _
    · exact nearestRank_le _ _
  rw [decimalRank?] at h
  dsimp only at h
  split at h
  · cases h
  · obtain ⟨e, -, rfl⟩ := Option.map_eq_some_iff.1 h
    exact hrank _ _ _

theorem finite_ofRank {r : Nat} (h : r ≤ infinity) : finite (ofRank false r) = decide (r < infinity) := by
  rcases Nat.lt_or_eq_of_le h with hlt | rfl
  · rw [finite, rank_ofRank false hlt]
  · decide +kernel

theorem finite_of_wordRank? {cs : List Char} {r : Nat} (h : wordRank? cs = some r) :
    finite (ofRank false r) = false := by
  simp only [wordRank?] at h
  split at h
  · cases h
    decide +kernel
  · split at h
    · cases h
      decide +kernel
    · cases h

/-- Without a sign, only decimals are finite numbers. -/
theorem parseFinite?_unsigned {cs : List Char} (hsign : splitSign cs = (false, cs)) :
    parseFinite? (String.ofList cs) = ((decimalRank? cs).filter (· < infinity)).map (ofRank false) := by
  rw [parseFinite?, parse?, String.toList_ofList, hsign]
  dsimp only
  cases hdecimal : decimalRank? cs with
  | none =>
      rw [Option.none_or]
      cases hword : wordRank? cs with
      | none => rfl
      | some r => rw [Option.map_some, Option.filter_some, finite_of_wordRank? hword]; rfl
  | some r =>
      rw [Option.some_or, Option.map_some, Option.filter_some, Option.filter_some,
        finite_ofRank (le_of_decimalRank? hdecimal)]
      split <;> rfl

theorem mem_of_splitSign {minus : Bool} {cs rest : List Char} (h : splitSign cs = (minus, rest)) {c : Char}
    (hc : c ∈ cs) : c = '+' ∨ c = '-' ∨ c ∈ rest := by
  rw [splitSign.eq_def] at h
  split at h
  · cases h
    exact (List.mem_cons.1 hc).imp_right .inr
  · cases h
    exact .inr (List.mem_cons.1 hc)
  · cases h
    exact .inr (.inr hc)

theorem mem_of_splitFraction {cs fraction rest : List Char} (h : splitFraction cs = (fraction, rest)) {c : Char}
    (hc : c ∈ cs) : c = '.' ∨ c.isDigit = true ∨ c ∈ rest := by
  rw [splitFraction.eq_def] at h
  split at h
  · rename_i tail
    cases h
    rcases List.mem_cons.1 hc with rfl | hc
    · exact .inl rfl
    · rw [← List.takeWhile_append_dropWhile (p := Char.isDigit) (l := tail), List.mem_append] at hc
      exact .inr (hc.imp_left fun hc => List.all_eq_true.1 List.all_takeWhile c hc)
  · cases h
    exact .inr (.inr hc)

theorem ascii_of_exponent? {cs : List Char} {e : Int} (h : exponent? cs = some e) : ∀ c ∈ cs, c.toNat < 128 := by
  cases cs with
  | nil => simp
  | cons mark rest =>
      cases hsign : splitSign rest with
      | mk minus ds =>
          rw [exponent?, hsign] at h
          dsimp only at h
          split at h
          · rename_i hcond
            simp only [Bool.and_eq_true, Bool.or_eq_true, beq_iff_eq, List.all_eq_true] at hcond
            obtain ⟨⟨hmark, -⟩, hdigits⟩ := hcond
            rw [List.forall_mem_cons]
            constructor
            · rcases hmark with rfl | rfl <;> decide
            · intro c hc
              rcases mem_of_splitSign hsign hc with rfl | rfl | hc
              · decide
              · decide
              · exact Text.lt_of_isDigit (hdigits c hc)
          · cases h

/-- Only ASCII text is read as a decimal. -/
theorem ascii_of_decimalRank? {cs : List Char} {r : Nat} (h : decimalRank? cs = some r) : ∀ c ∈ cs, c.toNat < 128 := by
  intro c hc
  rw [decimalRank?] at h
  cases hfraction : splitFraction (cs.dropWhile Char.isDigit) with
  | mk fraction rest =>
      rw [hfraction] at h
      dsimp only at h
      split at h
      · cases h
      · obtain ⟨e, hexponent, -⟩ := Option.map_eq_some_iff.1 h
        rw [← List.takeWhile_append_dropWhile (p := Char.isDigit) (l := cs), List.mem_append] at hc
        rcases hc with hc | hc
        · exact Text.lt_of_isDigit (List.all_eq_true.1 List.all_takeWhile c hc)
        · rcases mem_of_splitFraction hfraction hc with rfl | hc | hc
          · decide
          · exact Text.lt_of_isDigit hc
          · exact ascii_of_exponent? hexponent c hc

/-! ## Decimals -/

/-- The digits of a decimal, without its point. -/
def digits (cs : List Char) : List Char :=
  cs.filter (· ≠ '.')

/-- How many digits of a decimal follow its point. -/
def places (cs : List Char) : Nat :=
  (cs.dropWhile (· ≠ '.')).length - 1

/-- The number nearest to the value of a decimal. -/
def ofDecimal (cs : List Char) : Number :=
  ofRank false (nearestRank (Nat.ofDigitChars 10 (digits cs) 0) (10 ^ places cs))

/-- Decimals that are read as a number: the digits are ASCII, and the value is not too large. -/
def InRange (cs : List Char) : Prop :=
  (digits cs).all Char.isDigit = true ∧ Nat.ofDigitChars 10 (digits cs) 0 < overflow * 10 ^ places cs

instance (cs : List Char) : Decidable (InRange cs) :=
  inferInstanceAs (Decidable (_ ∧ _))

/-- A digit, or a character beyond ASCII, which may be a digit of another script. -/
def Figure (c : Char) : Prop :=
  c.isDigit = true ∨ 128 ≤ c.toNat

/-- Figures, or a point with figures after it and perhaps before it. -/
inductive DecimalText : List Char → Prop
  | whole {ds : List Char} : (∀ c ∈ ds, Figure c) → ds ≠ [] → DecimalText ds
  | point {ds fs : List Char} : (∀ c ∈ ds, Figure c) → (∀ c ∈ fs, Figure c) → fs ≠ [] →
      DecimalText (ds ++ '.' :: fs)

section

variable {ds fs : List Char}

theorem Figure.ne {c mark : Char} (h : Figure c) (hmark : mark = '.' ∨ mark = '+' ∨ mark = '-') : c ≠ mark := by
  rintro rfl
  rcases h with h | h
  · rcases hmark with rfl | rfl | rfl <;> revert h <;> decide
  · rcases hmark with rfl | rfl | rfl <;> revert h <;> decide

theorem digits_whole (hds : ∀ c ∈ ds, Figure c) : digits ds = ds := by
  rw [digits, List.filter_eq_self]
  intro c hc
  simpa using (hds c hc).ne (.inl rfl)

theorem digits_point (hds : ∀ c ∈ ds, Figure c) (hfs : ∀ c ∈ fs, Figure c) : digits (ds ++ '.' :: fs) = ds ++ fs := by
  have hsplit : digits (ds ++ '.' :: fs) = digits ds ++ digits fs := by simp [digits]
  rw [hsplit, digits_whole hds, digits_whole hfs]

theorem places_append (hds : ∀ c ∈ ds, Figure c) (rest : List Char) : places (ds ++ rest) = places rest := by
  rw [places, List.dropWhile_append_of_pos, places]
  intro c hc
  simpa using (hds c hc).ne (.inl rfl)

end

namespace DecimalText

variable {cs : List Char}

theorem figure_or_point (h : DecimalText cs) : ∀ c ∈ cs, Figure c ∨ c = '.' := by
  intro c hc
  cases h with
  | whole hds _ => exact .inl (hds c hc)
  | point hds hfs _ =>
      rw [List.mem_append, List.mem_cons] at hc
      rcases hc with hc | rfl | hc
      · exact .inl (hds c hc)
      · exact .inr rfl
      · exact .inl (hfs c hc)

theorem splitSign_eq (h : DecimalText cs) : splitSign cs = (false, cs) := by
  rw [splitSign]
  · rintro rest rfl
    exact (h.figure_or_point '+' List.mem_cons_self).elim (fun hc => hc.ne (.inr (.inl rfl)) rfl) (by decide)
  · rintro rest rfl
    exact (h.figure_or_point '-' List.mem_cons_self).elim (fun hc => hc.ne (.inr (.inr rfl)) rfl) (by decide)

theorem decimalRank?_eq (h : DecimalText cs) (hdigits : ∀ c ∈ digits cs, c.isDigit = true) :
    decimalRank? cs = some (nearestRank (Nat.ofDigitChars 10 (digits cs) 0) (10 ^ places cs)) := by
  cases h with
  | whole hds hne =>
      have hplaces := places_append hds []
      rw [List.append_nil] at hplaces
      rw [digits_whole hds] at hdigits ⊢
      rw [decimalRank?_whole hdigits hne, hplaces]
      rfl
  | point hds hfs hne =>
      rw [digits_point hds hfs] at hdigits ⊢
      rw [List.forall_mem_append] at hdigits
      rw [decimalRank?_point hdigits.1 hdigits.2 hne, places_append hds]
      rfl

/-- Digits of other scripts are not read. -/
theorem decimalRank?_eq_none (h : DecimalText cs) (hdigits : ¬ ∀ c ∈ digits cs, c.isDigit = true) :
    decimalRank? cs = none := by
  rw [Option.eq_none_iff_forall_ne_some]
  intro r hr
  apply hdigits
  intro c hc
  obtain ⟨hmem, hpoint⟩ := List.mem_filter.1 hc
  have hascii := ascii_of_decimalRank? hr c hmem
  rcases h.figure_or_point c hmem with (hdigit | hlarge) | rfl
  · exact hdigit
  · omega
  · cases hpoint

/-- A decimal is read as the nearest number if it is in range, and as none otherwise. -/
theorem parseFinite?_eq (h : DecimalText cs) :
    parseFinite? (String.ofList cs) = if InRange cs then some (ofDecimal cs) else none := by
  rw [parseFinite?_unsigned h.splitSign_eq]
  by_cases hdigits : ∀ c ∈ digits cs, c.isDigit = true
  · have hrange : InRange cs ↔ nearestRank (Nat.ofDigitChars 10 (digits cs) 0) (10 ^ places cs) < infinity := by
      rw [nearestRank_lt_iff _ (Nat.pow_pos (by decide)), InRange, List.all_eq_true, and_iff_right hdigits]
    rw [h.decimalRank?_eq hdigits, Option.filter_some]
    simp only [decide_eq_true_eq, ← hrange]
    split <;> rfl
  · rw [h.decimalRank?_eq_none hdigits, if_neg fun hrange => hdigits (List.all_eq_true.1 hrange.1)]
    rfl

end DecimalText

end Number

end Scriptlet
