import Mathlib
import Scriptlet.Number.Basic

/-!
# Numbers and their bit patterns

A finite number is determined by its sign and its rank, and every rank below that of infinity is the rank of a number.
Both follow from the fact that packing undoes unpacking on all bit patterns whose exponent is not the highest one.
-/

namespace Scriptlet.Number

open Float.Model
open Float.Model.UnpackedFloat

/-! ## Packing -/

theorem packComponents_parts (b : BitVec 64) :
    packComponents .binary64 (Sign.ofBitVec (@unpackSign .binary64 b)) (@unpackExponent .binary64 b)
      (@unpackMantissa .binary64 b) = b := by
  have hsign : ∀ s : BitVec 1, (Sign.ofBitVec s).toBitVec = s := by decide
  rw [packComponents, hsign]
  apply BitVec.eq_of_getLsbD_eq
  intro i hi
  simp only [unpackSign, unpackExponent, unpackMantissa, BitVec.getLsbD_append, BitVec.getLsbD_cast,
    BitVec.getLsbD_extractLsb]
  grind

theorem pack_subnormal (s : Sign) (m : BitVec 52) (h : 0 < m.toNat) :
    UnpackedFloat.pack .binary64 (.finite s m.toNat (-1074) h) = packComponents .binary64 s 0#11 m := by
  have hlog : m.toNat.log2 < 52 := (Nat.log2_lt h.ne').mpr m.isLt
  have hbits : ¬ m.toNat.log2 + 1 = Format.binary64.mantissaBits := by
    simp only [Format.mantissaBits]; omega
  have hexp : ¬ 2 ^ 11 ≤ (-1074 + (Format.binary64.exponentBias : Int) + (52 : Nat)).toNat + 1 := by decide
  simp only [UnpackedFloat.pack, hbits, if_false]
  rw [if_neg hexp]
  simp

theorem pack_normal (s : Sign) (e : BitVec 11) (m : BitVec 52) (h0 : e ≠ 0#11) (h1 : e ≠ -1#11)
    (h : 0 < (1#1 ++ m).toNat) :
    UnpackedFloat.pack .binary64 (.finite s (1#1 ++ m).toNat ((e.toNat : Int) - 1075) h)
      = packComponents .binary64 s e m := by
  have he0 : e.toNat ≠ 0 := fun h2 => h0 (BitVec.eq_of_toNat_eq h2)
  have he1 : e.toNat ≠ 2047 := fun h2 => h1 (BitVec.eq_of_toNat_eq (by rw [h2]; decide))
  have hm : (1#1 ++ m).toNat = 2 ^ 52 + m.toNat := by
    rw [BitVec.toNat_append, ← Nat.shiftLeft_add_eq_or_of_lt m.isLt]; simp
  have hlog : (1#1 ++ m).toNat.log2 = 52 := by
    rw [hm, Nat.log2_eq_iff (by omega)]
    have := m.isLt
    omega
  have hbias : ((e.toNat : Int) - 1075 + (Format.binary64.exponentBias : Int) + (52 : Nat)).toNat
      = e.toNat := by
    have : Format.binary64.exponentBias = 1023 := by decide
    rw [this]; omega
  have hlt := e.isLt
  simp only [UnpackedFloat.pack, hbias]
  rw [if_neg (by omega), if_pos (by rw [hlog]; decide)]
  congr 1
  · simp
  · apply BitVec.eq_of_toNat_eq
    have := m.isLt
    rw [hm, BitVec.toNat_ofNat]; omega

theorem pack_unpack (b : BitVec 64) (h : @unpackExponent .binary64 b ≠ -1#11) :
    UnpackedFloat.pack .binary64 (UnpackedFloat.unpack .binary64 b) = b := by
  have hbias : Format.binary64.exponentBias = 1023 := by decide
  conv => rhs; rw [← packComponents_parts b]
  generalize hs : @unpackSign .binary64 b = s
  generalize he : @unpackExponent .binary64 b = e at h
  generalize hm : @unpackMantissa .binary64 b = m
  simp only [UnpackedFloat.unpack, he, hm, hs, h, if_false, hbias]
  by_cases h0 : e = 0#11
  · by_cases h1 : m = 0#52
    · simp [h0, h1, UnpackedFloat.pack, packedZero]
    · simp only [h0, h1, if_true, dif_neg, not_false_eq_true]
      exact pack_subnormal _ _ _
  · simp only [h0, if_false]
    exact pack_normal _ _ _ h0 h _

/-! ## Bits -/

theorem toNat_signBit : signBit.toNat = 2 ^ 63 := by decide

/-- The exponent of a pattern that ranks below infinity is not the highest one. -/
theorem unpackExponent_ne {b : UInt64} (h : (b % signBit).toNat < Magnitude.infinity) :
    @unpackExponent .binary64 b.toBitVec ≠ -1#11 := by
  intro h1
  have h2 := congrArg BitVec.toNat h1
  have h3 : (-1#11).toNat = 2047 := by decide
  rw [h3, unpackExponent, BitVec.toNat_cast, BitVec.extractLsb_toNat] at h2
  simp only [UInt64.toNat_mod, toNat_signBit, Magnitude.infinity, Magnitude.binade, Nat.pow_eq] at h
  simp only [UInt64.toNat_toBitVec, Nat.shiftRight_eq_div_pow] at h2
  omega

theorem toBits_ofBits {b : UInt64} (h : (b % signBit).toNat < Magnitude.infinity) :
    (Float.ofBits b).toBits = b := by
  show UInt64.ofBitVec (UnpackedFloat.pack .binary64 (UnpackedFloat.unpack .binary64 b.toBitVec)) = b
  rw [pack_unpack _ (unpackExponent_ne h)]

theorem ofBits_toBits {x : Number} (h : finite x = true) : Float.ofBits x.toBits = x := by
  have h1 : (x.toBits % signBit).toNat < Magnitude.infinity := by simpa [finite, rank] using h
  have h2 : (Float.ofBits x.toBits).toModel.toBits = x.toModel.toBits := toBits_ofBits h1
  obtain ⟨⟨b, hb⟩⟩ := x
  generalize hy : Float.ofBits _ = y at *
  obtain ⟨⟨c, hc⟩⟩ := y
  simp only at h2
  subst h2
  rfl

/-! ## Sign and rank -/

theorem infinity_lt : Magnitude.infinity < 2 ^ 63 := by decide

theorem toNat_ofRank_bits (minus : Bool) {r : Nat} (h : r < Magnitude.infinity) :
    (if minus then signBit + UInt64.ofNat r else UInt64.ofNat r).toNat
      = (if minus then 2 ^ 63 else 0) + r := by
  have hr := h.trans infinity_lt
  cases minus with
  | false => simp; omega
  | true =>
      simp only [if_true, UInt64.toNat_add, toNat_signBit, UInt64.toNat_ofNat']
      omega

theorem toBits_ofRank (minus : Bool) {r : Nat} (h : r < Magnitude.infinity) :
    (ofRank minus r).toBits = if minus then signBit + UInt64.ofNat r else UInt64.ofNat r := by
  apply toBits_ofBits
  rw [UInt64.toNat_mod, toNat_ofRank_bits minus h, toNat_signBit]
  have hr := h.trans infinity_lt
  cases minus <;> simp <;> omega

@[simp]
theorem rank_ofRank (minus : Bool) {r : Nat} (h : r < Magnitude.infinity) : rank (ofRank minus r) = r := by
  rw [rank, toBits_ofRank minus h, UInt64.toNat_mod, toNat_ofRank_bits minus h, toNat_signBit]
  have hr := h.trans infinity_lt
  cases minus <;> simp <;> omega

@[simp]
theorem negative_ofRank (minus : Bool) {r : Nat} (h : r < Magnitude.infinity) :
    negative (ofRank minus r) = minus := by
  have hr := h.trans infinity_lt
  have hbits := toNat_ofRank_bits minus h
  rw [← toBits_ofRank minus h] at hbits
  simp only [negative, UInt64.le_iff_toNat_le, hbits, toNat_signBit]
  cases minus with
  | false => simp; omega
  | true => simp

/-- A finite number is determined by its sign and rank. -/
theorem ofRank_rank {x : Number} (h : finite x = true) : ofRank (negative x) (rank x) = x := by
  conv => rhs; rw [← ofBits_toBits h]
  rw [ofRank]
  congr 1
  apply UInt64.toNat_inj.mp
  rw [toNat_ofRank_bits _ (by simpa [finite] using h)]
  have hlt := x.toBits.toNat_lt
  simp only [rank, UInt64.toNat_mod, toNat_signBit, negative, UInt64.le_iff_toNat_le]
  by_cases hn : 2 ^ 63 ≤ x.toBits.toNat
  · simp only [hn, decide_true, if_true]; omega
  · simp only [hn, decide_false, Bool.false_eq_true, if_false]; omega

end Scriptlet.Number
