import Mathlib.Tactic
import Scriptlet.Proofs.Number.Bits
import Scriptlet.Value

/-!
# Rounding to the nearest number

A quotient whose value is that of a rank is rounded to this rank. So every index below `2 ^ 53` is exact: the number
made from it stands for the same index again.
-/

namespace Scriptlet

namespace Magnitude

/-! ## Exact values -/

theorem one_eq : one = 2 ^ unitBits := by
  unfold one
  generalize unitBits = bits
  rfl

theorem one_pos : 0 < one := by
  rw [one_eq]
  exact Nat.two_pow_pos unitBits

theorem binade_pos : 0 < binade := Nat.two_pow_pos 52

theorem roundQuotient_mul (q : Nat) {d : Nat} (hd : 0 < d) : roundQuotient (q * d) d = q := by
  have hq : q * d / d = q := Nat.mul_div_cancel _ hd
  simp [roundQuotient, hq, hd]

/-- The significand of a rank beyond the first binade has 53 digits. -/
theorem significand_bounds {r : Nat} (h : binade ≤ r) :
    binade ≤ significand r ∧ significand r < 2 * binade := by
  have hmod := Nat.mod_lt r binade_pos
  rw [significand, if_neg (by omega)]
  omega

theorem log2_units {r : Nat} (h : binade ≤ r) : (units r).log2 = 52 + scale r := by
  obtain ⟨hlo, hhi⟩ := significand_bounds h
  have hpow : 0 < 2 ^ scale r := Nat.two_pow_pos _
  have hpos : units r ≠ 0 := by
    have := Nat.mul_le_mul hlo (Nat.succ_le_of_lt hpow)
    have := binade_pos
    rw [units, Nat.pow_eq]; omega
  rw [Nat.log2_eq_iff hpos, units, Nat.pow_eq, Nat.pow_succ, Nat.pow_add]
  constructor
  · exact Nat.mul_le_mul_right _ hlo
  · calc significand r * 2 ^ scale r < 2 * binade * 2 ^ scale r := Nat.mul_lt_mul_of_pos_right hhi hpow
      _ = 2 ^ 52 * 2 ^ scale r * 2 := by rw [binade, Nat.pow_eq]; ring

/-- How often the spacing is doubled can be told from the number of units. -/
theorem log2_units_sub (r : Nat) : (units r).log2 - 52 = scale r := by
  by_cases h : r < binade
  · have hscale : scale r = 0 := by
      rw [scale, Nat.div_eq_of_lt h]
    have hunits : units r = r := by
      rw [units, hscale, significand, if_pos h]; simp
    have hlog : r.log2 ≤ 52 := by
      by_cases h0 : r = 0
      · simp [h0]
      · exact Nat.le_of_lt ((Nat.log2_lt h0).mpr h)
    rw [hunits, hscale]; omega
  · rw [log2_units (by omega)]; omega

/-- A rank is put together from its scale and its significand. -/
theorem scale_mul_binade (r : Nat) : scale r * binade + significand r = r := by
  have hdiv := Nat.div_add_mod r binade
  by_cases h : r < binade
  · simp [scale, significand, h, Nat.div_eq_of_lt h]
  · have hge : 1 ≤ r / binade := (Nat.one_le_div_iff binade_pos).mpr (by omega)
    rw [scale, significand, if_neg h]
    have hsub : (r / binade - 1) * binade + binade = binade * (r / binade) := by
      rw [← Nat.succ_mul, Nat.succ_eq_add_one, Nat.sub_add_cancel hge, Nat.mul_comm]
    omega

/-- A quotient with the value of a finite rank is rounded to that rank. -/
theorem nearestRank_of_exact {r num den : Nat} (hr : r < infinity) (hden : 0 < den)
    (h : num * one = units r * den) : nearestRank num den = r := by
  have hdiv : num * one / den = units r := by rw [h, Nat.mul_div_cancel _ hden]
  have hround : roundQuotient (num * one) (den * 2 ^ scale r) = significand r := by
    have hmul : num * one = significand r * (den * 2 ^ scale r) := by
      rw [h, units, Nat.pow_eq]; ring
    rw [hmul, roundQuotient_mul _ (Nat.mul_pos hden (Nat.two_pow_pos _))]
  simp only [nearestRank, Nat.pow_eq, hdiv, log2_units_sub, hround, scale_mul_binade]
  omega

/-! ## Natural numbers -/

theorem div_binade (k : Nat) {digits : Nat} (hlo : binade ≤ digits) (hhi : digits < 2 * binade) :
    (k * binade + digits) / binade = k + 1 := by
  apply Nat.div_eq_of_lt_le
  · rw [Nat.add_mul]; omega
  · rw [Nat.add_assoc, Nat.add_mul]; omega

/-- Every natural number below `2 ^ 53` is the value of a rank. -/
theorem exists_rank {n : Nat} (h : n < 2 ^ 53) : ∃ r, r < infinity ∧ units r = n * one := by
  by_cases h0 : n = 0
  · exact ⟨0, by decide, by simp [h0, units, significand, binade]⟩
  · have hlog : n.log2 < 53 := (Nat.log2_lt h0).mpr h
    have hbounds := (Nat.log2_eq_iff h0).mp rfl
    -- the digits of `n`, moved up until they are 53
    let digits := n * 2 ^ (52 - n.log2)
    have hpow : 2 ^ n.log2 * 2 ^ (52 - n.log2) = binade := by
      rw [← Nat.pow_add, binade, Nat.pow_eq]; congr 1; omega
    have hlo : binade ≤ digits := by
      rw [← hpow]; exact Nat.mul_le_mul_right _ hbounds.1
    have hhi : digits < 2 * binade := by
      rw [← hpow, ← Nat.mul_assoc]
      apply Nat.mul_lt_mul_of_pos_right _ (Nat.two_pow_pos _)
      rw [Nat.mul_comm, ← Nat.pow_succ]; exact hbounds.2
    let r := (n.log2 + 1022) * binade + digits
    have hquot : r / binade = n.log2 + 1023 := div_binade _ hlo hhi
    have hscale : scale r = n.log2 + 1022 := by rw [scale, hquot]; omega
    have hsig : significand r = digits := by
      have := scale_mul_binade r
      rw [hscale] at this
      simp only [r] at this ⊢
      omega
    refine ⟨r, ?_, ?_⟩
    · have : r / binade < 2047 := by rw [hquot]; omega
      exact (Nat.div_lt_iff_lt_mul binade_pos).mp this
    · have hexp : 52 - n.log2 + (n.log2 + 1022) = unitBits := by
        simp only [unitBits]; omega
      have hone : 2 ^ (52 - n.log2) * 2 ^ (n.log2 + 1022) = one := by
        rw [← Nat.pow_add, hexp, one_eq]
      rw [units, hsig, hscale]
      show n * 2 ^ (52 - n.log2) * 2 ^ (n.log2 + 1022) = n * one
      rw [Nat.mul_assoc, hone]

end Magnitude

open Magnitude

namespace Number

/-- The rank of a small natural number has this number as its value. -/
theorem rank_ofNat {n : Nat} (h : n < 2 ^ 53) :
    rank (ofNat n) < infinity ∧ units (rank (ofNat n)) = n * one ∧ negative (ofNat n) = false := by
  obtain ⟨r, hr, hunits⟩ := exists_rank h
  have hnear : nearestRank n 1 = r := nearestRank_of_exact hr Nat.one_pos (by rw [hunits, Nat.mul_one])
  rw [ofNat, hnear, rank_ofRank _ hr, negative_ofRank _ hr]
  exact ⟨hr, hunits, rfl⟩

theorem finite_ofNat {n : Nat} (h : n < 2 ^ 53) : finite (ofNat n) = true := by
  simpa [finite] using (rank_ofNat h).1

/-- An index below `2 ^ 53` is exact. -/
theorem toIndex?_ofNat {n : Nat} (h : n < 2 ^ 53) : toIndex? (ofNat n) = some n := by
  obtain ⟨hr, hunits, hneg⟩ := rank_ofNat h
  have hint : integerPart (rank (ofNat n)) = n := by
    rw [integerPart_eq, hunits, Nat.mul_div_cancel _ Magnitude.one_pos]
  have hwhole : isWhole (rank (ofNat n)) = true := by
    rw [isWhole_iff, hunits, Nat.mul_mod_left]
  simp only [toIndex?, whole, finite_ofNat h, hwhole, hint, hneg, indexCount, Nat.pow_eq]
  simp only [Bool.and_self, Bool.not_false, Bool.true_or, Bool.true_and, decide_eq_true_eq]
  rw [if_pos (by omega)]
  congr 1; omega

end Number

theorem Value.toIndex?_ofIndex {n : Nat} (h : n < 2 ^ 53) : (Value.ofIndex n).toIndex? = some n :=
  Number.toIndex?_ofNat h

end Scriptlet
