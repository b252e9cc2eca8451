import Mathlib.Tactic
import Scriptlet.Text.Ranges
import Scriptlet.Text.Word

/-!
# Classes of characters

How the wide and the narrow view of word characters differ. All of them but the stray ones may stand in a variable, and
a numeral may not begin one.
-/

namespace Scriptlet.Text

/-! ## Ranges -/

theorem exists_range {n : Nat} {ranges : List (Nat × Nat)} (h : inRanges n ranges = true) :
    ∃ r ∈ ranges, r.1 ≤ n ∧ n ≤ r.2 := by
  induction ranges with
  | nil => cases h
  | cons r rest ih =>
      obtain ⟨lo, hi⟩ := r
      rw [inRanges] at h
      split at h
      · cases h
      · rename_i hlo
        rcases Bool.or_eq_true_iff.1 h with h | h
        · exact ⟨(lo, hi), List.mem_cons_self, Nat.le_of_not_lt hlo, of_decide_eq_true h⟩
        · obtain ⟨r, hr, hn⟩ := ih h
          exact ⟨r, List.mem_cons_of_mem _ hr, hn⟩

/-- Ranges in ascending order. -/
def Ascending (ranges : List (Nat × Nat)) : Prop :=
  (ranges.map Prod.fst).Pairwise (· ≤ ·)

theorem inRanges_of_mem {n : Nat} {r : Nat × Nat} {ranges : List (Nat × Nat)} (hsorted : Ascending ranges)
    (hr : r ∈ ranges) (hlo : r.1 ≤ n) (hhi : n ≤ r.2) : inRanges n ranges = true := by
  induction ranges with
  | nil => cases hr
  | cons first rest ih =>
      rw [Ascending, List.map_cons, List.pairwise_cons] at hsorted
      rw [inRanges]
      rcases List.mem_cons.1 hr with rfl | hr
      · rw [if_neg (Nat.not_lt.2 hlo), decide_eq_true hhi, Bool.true_or]
      · have hfirst : first.1 ≤ r.1 := hsorted.1 r.1 (List.mem_map_of_mem hr)
        rw [if_neg (Nat.not_lt.2 (hfirst.trans hlo)), ih hsorted.2 hr, Bool.or_true]

/-- A check, in one pass, that ascending ranges have nothing in common. -/
def apart : List (Nat × Nat) → List (Nat × Nat) → Bool
  | [], _ => true
  | r :: ranges, others =>
    let later := others.dropWhile (·.2 < r.1)
    later.head?.all (r.2 < ·.1) && apart ranges later

theorem lt_of_head? {n : Nat} {ranges : List (Nat × Nat)} (hsorted : Ascending ranges)
    (h : ranges.head?.all (n < ·.1) = true) : ∀ r ∈ ranges, n < r.1 := by
  cases ranges with
  | nil => simp
  | cons first rest =>
      rw [Ascending, List.map_cons, List.pairwise_cons] at hsorted
      have hfirst : n < first.1 := of_decide_eq_true h
      rw [List.forall_mem_cons]
      exact ⟨hfirst, fun r hr => hfirst.trans_le (hsorted.1 r.1 (List.mem_map_of_mem hr))⟩

theorem lt_or_lt_of_apart {ranges others : List (Nat × Nat)} (hsorted : Ascending ranges)
    (hothers : Ascending others) (h : apart ranges others = true) :
    ∀ r ∈ ranges, ∀ r' ∈ others, r.2 < r'.1 ∨ r'.2 < r.1 := by
  induction ranges generalizing others with
  | nil => simp
  | cons first ranges ih =>
      rw [apart, Bool.and_eq_true] at h
      rw [Ascending, List.map_cons, List.pairwise_cons] at hsorted
      have hlater : Ascending (others.dropWhile (·.2 < first.1)) :=
        hothers.sublist ((List.dropWhile_sublist _).map _)
      intro r hr r' hr'
      have hfirst : first.1 ≤ r.1 := by
        rcases List.mem_cons.1 hr with rfl | hr
        · exact le_rfl
        · exact hsorted.1 r.1 (List.mem_map_of_mem hr)
      rw [← List.takeWhile_append_dropWhile (p := (·.2 < first.1)) (l := others), List.mem_append] at hr'
      rcases hr' with hr' | hr'
      · -- what is passed over lies below the first range, and so below all of them
        have hpassed := List.all_eq_true.1 List.all_takeWhile r' hr'
        exact .inr ((of_decide_eq_true hpassed).trans_le hfirst)
      · rcases List.mem_cons.1 hr with rfl | hr
        · exact .inl (lt_of_head? hlater h.1 r' hr')
        · exact ih hsorted.2 hlater h.2 r hr r' hr'

theorem inRanges_eq_false_of_apart {n : Nat} {ranges others : List (Nat × Nat)} (hsorted : Ascending ranges)
    (hothers : Ascending others) (h : apart ranges others = true) (hn : inRanges n ranges = true) :
    inRanges n others = false := by
  by_contra hother
  obtain ⟨r, hr, hlo, hhi⟩ := exists_range hn
  obtain ⟨r', hr', hlo', hhi'⟩ := exists_range (Bool.of_not_eq_false hother)
  have := lt_or_lt_of_apart hsorted hothers h r hr r' hr'
  omega

theorem ascending_numeralRanges : Ascending numeralRanges :=
  List.isChain_iff_pairwise.1 (by decide +kernel)

theorem ascending_markRanges : Ascending markRanges :=
  List.isChain_iff_pairwise.1 (by decide +kernel)

/-! ## Digits -/

theorem isNumeral_of_isDigit {c : Char} (h : isDigit c = true) : isNumeral c = true := by
  have hinside : ∀ r ∈ digitRanges, ∃ r' ∈ numeralRanges, r'.1 ≤ r.1 ∧ r.2 ≤ r'.2 := by decide +kernel
  obtain ⟨r, hr, hlo, hhi⟩ := exists_range h
  obtain ⟨r', hr', hlo', hhi'⟩ := hinside r hr
  exact inRanges_of_mem ascending_numeralRanges hr' (hlo'.trans hlo) (hhi.trans hhi')

theorem forall_ascii {P : Char → Prop} (h : ∀ n < 128, P (Char.ofNat n)) {c : Char} (hc : c.toNat < 128) : P c := by
  rw [← Char.ofNat_toNat c]
  exact h c.toNat hc

theorem lt_of_isDigit {c : Char} (h : c.isDigit = true) : c.toNat < 128 :=
  Nat.lt_of_le_of_lt (Char.isDigit_iff_toNat.1 h).2 (by decide)

theorem isAlphanumeric_of_isDigit {c : Char} (h : c.isDigit = true) : isAlphanumeric c = true :=
  forall_ascii (P := fun c => c.isDigit = true → isAlphanumeric c = true) (by decide) (lt_of_isDigit h) h

/-- Among ASCII characters only the usual digits are digits. -/
theorem isDigit_of_isWordDigit {c : Char} (h : isWordDigit c = true) (hc : c.toNat < 128) : c.isDigit = true :=
  forall_ascii (P := fun c => isWordDigit c = true → c.isDigit = true) (by decide) hc h

/-- What begins a word is no ASCII digit, sign or point. -/
theorem not_isWordStart {c : Char} (h : c.isDigit = true ∨ c = '.' ∨ c = '+' ∨ c = '-') : isWordStart c = false := by
  rcases h with h | rfl | rfl | rfl
  · exact forall_ascii (P := fun c => c.isDigit = true → isWordStart c = false) (by decide) (lt_of_isDigit h) h
  · decide
  · decide
  · decide

/-! ## Blanks -/

/-- Blanks separate words. -/
theorem not_isWord_of_isBlank {c : Char} (h : isBlank c = true) : isWord c = false := by
  have hblank : Ascending blankRanges := List.isChain_iff_pairwise.1 (by decide)
  have hnone : ∀ ranges, Ascending ranges → apart blankRanges ranges = true → inRanges c.toNat ranges = false :=
    fun ranges hsorted hapart => inRanges_eq_false_of_apart hblank hsorted hapart h
  have halphabetic : isAlphabetic c = false :=
    hnone alphabeticRanges (List.isChain_iff_pairwise.1 (by decide +kernel)) (by decide +kernel)
  have hmark : isMark c = false :=
    hnone markRanges ascending_markRanges (by decide +kernel)
  have hdigit : isDigit c = false :=
    hnone digitRanges (List.isChain_iff_pairwise.1 (by decide +kernel)) (by decide +kernel)
  have hconnector : isConnector c = false :=
    hnone connectorRanges (List.isChain_iff_pairwise.1 (by decide)) (by decide)
  have hjoiner : isJoiner c = false := by
    by_contra hc
    rw [Bool.not_eq_false, isJoiner, Bool.or_eq_true, beq_iff_eq, beq_iff_eq] at hc
    rcases hc with hc | hc <;> rw [isBlank, hc] at h <;> exact absurd h (by decide)
  simp [isWord, halphabetic, hmark, hdigit, hconnector, hjoiner]

theorem isWord_of_isWordDigit {c : Char} (h : isWordDigit c = true) : isWord c = true := by
  simp only [isWordDigit, Bool.and_eq_true] at h
  simp [isWord, h.1, h.2]

/-! ## Stray characters -/

/-- Word characters that no variable has: marks, joiners and the relatives of the underscore, unless they count as
letters. -/
def isStray (c : Char) : Bool :=
  c != '_' && !isAlphabetic c && (isMark c || isConnector c || isJoiner c)

theorem not_isNumeral_of_isStray {c : Char} (h : isStray c = true) : isNumeral c = false := by
  simp only [isStray, Bool.and_eq_true, Bool.or_eq_true] at h
  rcases h.2 with (hmark | hconnector) | hjoiner
  · exact inRanges_eq_false_of_apart ascending_markRanges ascending_numeralRanges (by decide +kernel) hmark
  · exact inRanges_eq_false_of_apart (List.isChain_iff_pairwise.1 (by decide)) ascending_numeralRanges
      (by decide +kernel) hconnector
  · simp only [isJoiner, Bool.or_eq_true, beq_iff_eq] at hjoiner
    rcases hjoiner with hc | hc <;> rw [isNumeral, hc] <;> decide +kernel

/-- A word character may stand in a variable if it is not stray. -/
theorem narrow_of_isWord {c : Char} (h : isWord c = true) : (c == '_' || isAlphanumeric c) = !isStray c := by
  cases hstray : isStray c with
  | true =>
      have hnumeral := not_isNumeral_of_isStray hstray
      simp only [isStray, Bool.and_eq_true, Bool.not_eq_true', bne_iff_ne] at hstray
      simp [isAlphanumeric, hnumeral, hstray.1]
  | false =>
      have hdigit : isDigit c = true → isNumeral c = true := isNumeral_of_isDigit
      simp only [isWord, isStray, isAlphanumeric] at h hstray ⊢
      grind

/-- What begins a word may begin a variable if it is neither stray nor a numeral. -/
theorem narrow_of_isWordStart {c : Char} (h : isWordStart c = true) :
    (c == '_' || (isAlphanumeric c && !isNumeral c)) = (!isStray c && !isNumeral c) := by
  rw [← narrow_of_isWord (Bool.and_eq_true_iff.1 h).1]
  by_cases hc : c = '_'
  · subst hc
    decide
  · rw [beq_eq_false_iff_ne.2 hc, Bool.false_or, Bool.false_or]

end Scriptlet.Text
