import Mathlib.Tactic
import Scriptlet.Token.Lexeme

/-!
# Patterns as regular expressions

The patterns of lexemes are regular expressions. Where an expression matches in several ways, alternatives to the left
come first, and a repetition goes on as long as it can before it tries to stop earlier. The match is the first in this
order. Patterns need no repetition but that of a class of characters.
-/

namespace Scriptlet

/-- Regular expressions over classes of characters. -/
inductive Regex where
  | empty
  | one (p : Char → Bool)
  | many (p : Char → Bool)
  | seq (r s : Regex)
  | alt (r s : Regex)

namespace Regex

/-- The ways to match characters of a class at the start of a text, the longest first. -/
def greedy (p : Char → Bool) : List Char → List (List Char)
  | [] => [[]]
  | c :: cs => if p c then (greedy p cs).map (c :: ·) ++ [[]] else [[]]

/-- The ways to match at the start of a text, in the order in which they are tried. -/
def ways : Regex → List Char → List (List Char)
  | empty, _ => [[]]
  | one _, [] => []
  | one p, c :: _ => if p c then [[c]] else []
  | many p, cs => greedy p cs
  | seq r s, cs => (r.ways cs).flatMap fun m => (s.ways (cs.drop m.length)).map (m ++ ·)
  | alt r s, cs => r.ways cs ++ s.ways cs

@[simp]
theorem greedy_nil (p : Char → Bool) : greedy p [] = [[]] :=
  rfl

@[simp]
theorem greedy_cons (p : Char → Bool) (c : Char) (cs : List Char) :
    greedy p (c :: cs) = if p c then (greedy p cs).map (c :: ·) ++ [[]] else [[]] :=
  rfl

@[simp]
theorem ways_empty (cs : List Char) : empty.ways cs = [[]] :=
  rfl

@[simp]
theorem ways_one_nil (p : Char → Bool) : (one p).ways [] = [] :=
  rfl

@[simp]
theorem ways_one_cons (p : Char → Bool) (c : Char) (cs : List Char) :
    (one p).ways (c :: cs) = if p c then [[c]] else [] :=
  rfl

@[simp]
theorem ways_many (p : Char → Bool) (cs : List Char) : (many p).ways cs = greedy p cs :=
  rfl

@[simp]
theorem ways_seq (r s : Regex) (cs : List Char) :
    (seq r s).ways cs = (r.ways cs).flatMap fun m => (s.ways (cs.drop m.length)).map (m ++ ·) :=
  rfl

@[simp]
theorem ways_alt (r s : Regex) (cs : List Char) : (alt r s).ways cs = r.ways cs ++ s.ways cs :=
  rfl

/-- What is matched at the start of a text. -/
def matched? (r : Regex) (cs : List Char) : Option (List Char) :=
  (r.ways cs).head?

/-- Exactly these characters. -/
def literal : List Char → Regex
  | [] => empty
  | c :: cs => seq (one (· = c)) (literal cs)

/-- At least one character of a class. -/
def atLeastOne (p : Char → Bool) : Regex :=
  seq (one p) (many p)

end Regex

/-- The expression of a pattern. -/
def Pattern.regex : Pattern → Regex
  | exactly text => .literal text.toList
  | comment => .seq (.literal "--".toList) (.many (· ≠ '\n'))
  | boolean => .alt (.literal "true".toList) (.literal "false".toList)
  | word => .seq (.one fun c => Text.isWord c && !Text.isWordDigit c) (.many Text.isWord)
  | number =>
    .alt (.seq (.many Text.isWordDigit) (.seq (.one (· = '.')) (.atLeastOne Text.isWordDigit)))
      (.atLeastOne Text.isWordDigit)
  | quoted => .seq (.one (· = '"')) (.seq (.many fun c => c ≠ '"' && c ≠ '\n') (.one (· = '"')))

namespace Regex

/-! ## Matches of compound expressions -/

variable {p : Char → Bool} {r s : Regex}

theorem matched?_seq (r s : Regex) (cs : List Char) :
    (seq r s).matched? cs = (r.ways cs).findSome? fun m => (s.matched? (cs.drop m.length)).map (m ++ ·) := by
  simp [matched?, List.head?_flatMap]

theorem matched?_alt (r s : Regex) (cs : List Char) : (alt r s).matched? cs = (r.matched? cs).or (s.matched? cs) := by
  simp [matched?, List.head?_append]

theorem matched?_one_cons (p : Char → Bool) (c : Char) (cs : List Char) :
    (one p).matched? (c :: cs) = if p c then some [c] else none := by
  by_cases h : p c = true <;> simp [matched?, h]

theorem matched?_seq_one_cons (p : Char → Bool) (s : Regex) (c : Char) (cs : List Char) :
    (seq (one p) s).matched? (c :: cs) = if p c then (s.matched? cs).map (c :: ·) else none := by
  rw [matched?_seq]
  by_cases h : p c = true
  · cases hs : s.matched? cs <;> simp [h, hs]
  · simp [h]

theorem matched?_seq_one_nil (p : Char → Bool) (s : Regex) : (seq (one p) s).matched? [] = none := by
  simp [matched?_seq]

theorem ways_literal (text cs : List Char) :
    (literal text).ways cs = if text.isPrefixOf cs then [text] else [] := by
  induction text generalizing cs with
  | nil => simp [literal]
  | cons c text ih =>
      cases cs with
      | nil => simp [literal]
      | cons d cs =>
          by_cases h : d = c
          · subst h
            by_cases hprefix : text <+: cs <;> simp [literal, ih, hprefix]
          · simp [literal, h, Ne.symm h]

theorem matched?_literal (text cs : List Char) :
    (literal text).matched? cs = if text.isPrefixOf cs then some text else none := by
  rw [matched?, ways_literal]
  split <;> rfl

theorem matched?_seq_literal (text : List Char) (s : Regex) (cs : List Char) :
    (seq (literal text) s).matched? cs
      = if text.isPrefixOf cs then (s.matched? (cs.drop text.length)).map (text ++ ·) else none := by
  rw [matched?_seq, ways_literal]
  split
  · rw [List.findSome?_cons]
    cases (s.matched? (cs.drop text.length)) <;> rfl
  · rfl

/-! ## Matches of repetitions -/

theorem matched?_many (p : Char → Bool) (cs : List Char) : (many p).matched? cs = some (cs.takeWhile p) := by
  rw [matched?, ways_many]
  induction cs with
  | nil => rfl
  | cons c cs ih => by_cases h : p c = true <;> simp [h, ih]

/-- A repetition takes all it can if what comes after it cannot begin with a character of the class. -/
theorem matched?_seq_many (h : ∀ c cs, p c = true → s.matched? (c :: cs) = none) (cs : List Char) :
    (seq (many p) s).matched? cs = (s.matched? (cs.dropWhile p)).map (cs.takeWhile p ++ ·) := by
  rw [matched?_seq, ways_many]
  induction cs with
  | nil => cases hs : s.matched? [] <;> simp [hs]
  | cons c cs ih =>
      by_cases hc : p c = true
      · have hstop : s.matched? (c :: cs) = none := h c cs hc
        have hstep : ((fun m => (s.matched? ((c :: cs).drop m.length)).map (m ++ ·)) ∘ (c :: ·))
            = Option.map (c :: ·) ∘ fun m => (s.matched? (cs.drop m.length)).map (m ++ ·) := by
          funext m
          simp [Function.comp_def]
        rw [greedy_cons, if_pos hc, List.findSome?_append, List.findSome?_map, hstep, ← List.map_findSome?, ih,
          List.takeWhile_cons_of_pos hc, List.dropWhile_cons_of_pos hc]
        simp [hstop, Function.comp_def]
      · cases hs : s.matched? (c :: cs) <;> simp [hc, hs]

theorem matched?_atLeastOne (p : Char → Bool) (cs : List Char) :
    (atLeastOne p).matched? cs = if cs.takeWhile p ≠ [] then some (cs.takeWhile p) else none := by
  cases cs with
  | nil => simp [atLeastOne, matched?_seq_one_nil]
  | cons c cs => by_cases h : p c = true <;> simp [atLeastOne, matched?_seq_one_cons, matched?_many, h]

/-! ## Matched texts -/

theorem prefix_of_mem_greedy {cs m : List Char} (h : m ∈ greedy p cs) : m <+: cs := by
  induction cs generalizing m with
  | nil => simp_all
  | cons c cs ih =>
      rw [greedy_cons] at h
      split at h
      · rcases List.mem_append.1 h with h | h
        · obtain ⟨m', hm', rfl⟩ := List.mem_map.1 h
          exact (List.prefix_cons_inj c).2 (ih hm')
        · simp_all
      · simp_all

theorem prefix_of_mem_ways {cs m : List Char} (h : m ∈ r.ways cs) : m <+: cs := by
  induction r generalizing cs m with
  | empty => simp_all
  | one p =>
      cases cs with
      | nil => simp at h
      | cons c cs =>
          rw [ways_one_cons] at h
          split at h <;> simp_all
  | many p => exact prefix_of_mem_greedy h
  | seq r s ihr ihs =>
      obtain ⟨m₁, h₁, hmap⟩ := List.mem_flatMap.1 h
      obtain ⟨m₂, h₂, rfl⟩ := List.mem_map.1 hmap
      obtain ⟨rest, rfl⟩ := ihr h₁
      rw [List.drop_left] at h₂
      exact (List.prefix_append_right_inj m₁).2 (ihs h₂)
  | alt r s ihr ihs => exact (List.mem_append.1 h).elim ihr ihs

/-- Whether a character can be in what is matched. -/
def admits : Regex → Char → Bool
  | empty, _ => false
  | one p, c => p c
  | many p, c => p c
  | seq r s, c => r.admits c || s.admits c
  | alt r s, c => r.admits c || s.admits c

theorem of_mem_greedy {cs m : List Char} {c : Char} (h : m ∈ greedy p cs) (hc : c ∈ m) : p c = true := by
  induction cs generalizing m with
  | nil => simp_all
  | cons d cs ih =>
      rw [greedy_cons] at h
      split at h
      · rcases List.mem_append.1 h with h | h
        · obtain ⟨m, hm, rfl⟩ := List.mem_map.1 h
          rcases List.mem_cons.1 hc with rfl | hc
          · assumption
          · exact ih hm hc
        · simp_all
      · simp_all

theorem admits_of_mem_ways {cs m : List Char} {c : Char} (h : m ∈ r.ways cs) (hc : c ∈ m) : r.admits c = true := by
  induction r generalizing cs m with
  | empty => simp_all
  | one p =>
      cases cs with
      | nil => simp at h
      | cons d cs =>
          rw [ways_one_cons] at h
          split at h <;> simp_all [admits]
  | many p => exact of_mem_greedy h hc
  | seq r s ihr ihs =>
      obtain ⟨m₁, h₁, hmap⟩ := List.mem_flatMap.1 h
      obtain ⟨m₂, h₂, rfl⟩ := List.mem_map.1 hmap
      rw [admits, Bool.or_eq_true]
      exact (List.mem_append.1 hc).imp (ihr h₁) (ihs h₂)
  | alt r s ihr ihs =>
      rw [admits, Bool.or_eq_true]
      exact (List.mem_append.1 h).imp (ihr · hc) (ihs · hc)

end Regex

/-! ## Patterns -/

theorem drop_length_takeWhile (p : Char → Bool) (cs : List Char) :
    cs.drop (cs.takeWhile p).length = cs.dropWhile p := by
  calc cs.drop (cs.takeWhile p).length
    _ = (cs.takeWhile p ++ cs.dropWhile p).drop (cs.takeWhile p).length := by rw [List.takeWhile_append_dropWhile]
    _ = cs.dropWhile p := List.drop_left

/-- The point ends the digits before it, so that it makes no difference where they could end. -/
theorem Pattern.number?_eq_matched? (cs : List Char) : number? cs = number.regex.matched? cs := by
  have hpoint : ∀ c cs, Text.isWordDigit c = true →
      (Regex.seq (.one (· = '.')) (.atLeastOne Text.isWordDigit)).matched? (c :: cs) = none := by
    intro c cs hc
    have hne : c ≠ '.' := by
      rintro rfl
      cases hc
    simp [Regex.matched?_seq_one_cons, hne]
  rw [number?, regex, Regex.matched?_alt, Regex.matched?_seq_many hpoint, Regex.matched?_atLeastOne]
  cases cs.dropWhile Text.isWordDigit with
  | nil => simp [Regex.matched?_seq_one_nil]
  | cons c rest =>
      by_cases hc : c = '.'
      · subst hc
        by_cases hfraction : rest.takeWhile Text.isWordDigit = [] <;>
          simp [Regex.matched?_seq_one_cons, Regex.matched?_atLeastOne, hfraction]
      · simp [Regex.matched?_seq_one_cons, hc]

theorem Pattern.quoted?_eq_matched? (cs : List Char) : quoted? cs = quoted.regex.matched? cs := by
  have hquote : ∀ c cs, (c ≠ '"' && c ≠ '\n') = true → (Regex.one (· = '"')).matched? (c :: cs) = none := by
    intro c cs hc
    simp at hc
    simp [Regex.matched?_one_cons, hc]
  cases cs with
  | nil => rw [regex, Regex.matched?_seq_one_nil, quoted?]; simp
  | cons c cs =>
      rw [regex, Regex.matched?_seq_one_cons, Regex.matched?_seq_many hquote]
      by_cases hc : c = '"'
      · subst hc
        simp only [quoted?, drop_length_takeWhile]
        cases cs.dropWhile fun c => c ≠ '"' && c ≠ '\n' with
        | nil => rfl
        | cons d rest => by_cases hd : d = '"' <;> simp [Regex.matched?_one_cons, hd]
      · simp [quoted?, hc]

/-- The lexeme of a pattern is what its expression matches. -/
theorem Pattern.lexeme?_eq_matched? (pattern : Pattern) (cs : List Char) :
    pattern.lexeme? cs = pattern.regex.matched? cs := by
  cases pattern with
  | exactly text => rw [lexeme?, regex, Regex.matched?_literal]
  | comment =>
      rw [lexeme?, regex, Regex.matched?_seq_literal, Regex.matched?_many]
      split
      · rename_i hprefix
        obtain ⟨rest, rfl⟩ := List.isPrefixOf_iff_prefix.1 hprefix
        simp
      · rfl
  | boolean =>
      rw [lexeme?, regex, Regex.matched?_alt, Regex.matched?_literal, Regex.matched?_literal]
      split
      · rfl
      · split <;> rfl
  | word =>
      cases cs with
      | nil => rw [lexeme?, word?, regex, Regex.matched?_seq_one_nil]
      | cons c cs => rw [lexeme?, word?, regex, Regex.matched?_seq_one_cons, Regex.matched?_many]; rfl
  | number => exact number?_eq_matched? cs
  | quoted => exact quoted?_eq_matched? cs

end Scriptlet
