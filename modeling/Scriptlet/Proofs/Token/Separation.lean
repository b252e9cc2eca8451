import Mathlib.Tactic
import Scriptlet.Proofs.Text.Classes
import Scriptlet.Proofs.Token.Lexemes

/-!
# Lexemes that stand alone

A text is known by its lexemes. Which rule matches depends on what follows, but not on what follows a space: there every
lexeme is cut as it would be if nothing followed. So lexemes with spaces between them are read as they are.
-/

namespace Scriptlet

/-! ## The texts of lexemes -/

/-- The texts that a pattern spells out. -/
def Pattern.spellings : Pattern → List String
  | exactly text => [text]
  | boolean => ["true", "false"]
  | _ => []

/-- The spellings that no name begins with. -/
def reserved : List String :=
  ["end", "function", "return", "while", "break", "do", "if", "then", "else", "nil", "not", "or", "and", "true", "false"]

/-- The texts of lexemes by their tags: what a rule spells out, names, numbers without and with a point, and quoted
text. -/
inductive LexemeText : Tag → List Char → Prop
  | spelled {tag : Tag} {pattern : Pattern} {text : String} : (tag, pattern) ∈ lexemeRules →
      text ∈ pattern.spellings → LexemeText tag text.toList
  | name {c : Char} {cs : List Char} : Text.isWordStart c = true → (∀ d ∈ cs, Text.isWord d = true) →
      (∀ text ∈ reserved, ¬ text.toList <+: c :: cs) → LexemeText .name (c :: cs)
  | whole {digits : List Char} : digits ≠ [] → (∀ d ∈ digits, Text.isWordDigit d = true) → LexemeText .number digits
  | point {whole fraction : List Char} : (∀ d ∈ whole, Text.isWordDigit d = true) → fraction ≠ [] →
      (∀ d ∈ fraction, Text.isWordDigit d = true) → LexemeText .number (whole ++ '.' :: fraction)
  | quoted {body : List Char} : (∀ c ∈ body, c ≠ '"' ∧ c ≠ '\n') → LexemeText .string ('"' :: (body ++ ['"']))

theorem reserved_eq : (lexemeRules.takeWhile (·.1 ≠ .name)).flatMap (·.2.spellings) = reserved := by
  decide

theorem Pattern.lexeme?_of_spellings {pattern : Pattern} (h : pattern.spellings ≠ []) (cs : List Char) :
    pattern.lexeme? cs = (pattern.spellings.find? (·.toList.isPrefixOf cs)).map String.toList := by
  cases pattern with
  | exactly text => cases hcs : text.toList.isPrefixOf cs <;> simp [lexeme?, spellings, hcs]
  | boolean =>
      cases htrue : "true".toList.isPrefixOf cs <;> cases hfalse : "false".toList.isPrefixOf cs <;>
        simp only [lexeme?, spellings, List.find?_cons, htrue, hfalse] <;> rfl
  | _ => exact absurd rfl h

theorem Pattern.not_prefix_of_lexeme? {pattern : Pattern} {cs : List Char} (h : pattern.lexeme? cs = none)
    {text : String} (htext : text ∈ pattern.spellings) : ¬ text.toList <+: cs := by
  rw [lexeme?_of_spellings (List.ne_nil_of_mem htext), Option.map_eq_none_iff, List.find?_eq_none] at h
  rw [← List.isPrefixOf_iff_prefix]
  exact h text htext

/-- A name begins with nothing that is reserved, because the rules for that come first. -/
theorem not_reserved_of_before {cs : List Char}
    (h : ∀ rule ∈ lexemeRules.takeWhile (·.1 ≠ .name), rule.2.lexeme? cs = none) :
    ∀ text ∈ reserved, ¬ text.toList <+: cs := by
  intro text htext
  rw [← reserved_eq, List.mem_flatMap] at htext
  obtain ⟨rule, hrule, htext⟩ := htext
  exact Pattern.not_prefix_of_lexeme? (h rule hrule) htext

theorem lexemeText_of_firstLexeme? {cs lexeme : List Char} {tag : Tag} (h : firstLexeme? cs = some (tag, lexeme))
    (htag : tag ≠ .comment) : LexemeText tag lexeme := by
  obtain ⟨⟨pattern, hlookup, hmatch⟩, hbefore⟩ := firstLexeme?_eq_some h
  have hrule : (tag, pattern) ∈ lexemeRules := by
    obtain ⟨before, after, heq, -⟩ := List.lookup_eq_some_iff.1 hlookup
    rw [heq]
    simp
  have hspelled : pattern.spellings ≠ [] → LexemeText tag lexeme := by
    intro hne
    rw [Pattern.lexeme?_of_spellings hne, Option.map_eq_some_iff] at hmatch
    obtain ⟨text, hfind, rfl⟩ := hmatch
    exact .spelled hrule (List.mem_of_find?_eq_some hfind)
  cases pattern with
  | exactly text => exact hspelled (List.cons_ne_nil _ _)
  | boolean => exact hspelled (List.cons_ne_nil _ _)
  | comment => exact absurd (by simpa [lexemeRules] using hrule) htag
  | word =>
      obtain rfl : tag = .name := by simpa [lexemeRules] using hrule
      have hprefix := Pattern.isPrefixOf_of_word? hmatch
      obtain ⟨c, rest, rfl, hstart, hrest⟩ := Pattern.exists_of_word? hmatch
      exact .name hstart hrest fun text htext hpre => not_reserved_of_before hbefore text htext (hpre.trans hprefix)
  | number =>
      obtain rfl : tag = .number := by simpa [lexemeRules] using hrule
      rcases Pattern.cases_of_number? hmatch with ⟨hne, hdigits⟩ | ⟨whole, fraction, rfl, hwhole, hne, hfraction⟩
      · exact .whole hne hdigits
      · exact .point hwhole hne hfraction
  | quoted =>
      obtain rfl : tag = .string := by simpa [lexemeRules] using hrule
      obtain ⟨body, rfl, hbody⟩ := Pattern.exists_of_quoted? hmatch
      exact .quoted hbody

theorem lexemeText_of_tokenize {source : String} {ts : List Token} (h : tokenize source = .ok ts) :
    ∀ t ∈ ts, LexemeText t.tag t.text.toList := by
  refine Scan.forall_of_ofChars (fun cs tag lexeme p hlexeme htag => ?_) h
  rw [String.toList_ofList]
  exact lexemeText_of_firstLexeme? hlexeme htag

/-! ## Before a space -/

section Isolation

variable {cs rest : List Char}

theorem takeWhile_before_space {p : Char → Bool} (h : p ' ' = false) :
    (cs ++ ' ' :: rest).takeWhile p = cs.takeWhile p := by
  rw [List.takeWhile_append, List.takeWhile_cons_of_neg (by simp [h])]
  split
  · rename_i hall
    rw [List.append_nil, (List.takeWhile_prefix p).eq_of_length hall]
  · rfl

theorem dropWhile_before_space {p : Char → Bool} (h : p ' ' = false) :
    (cs ++ ' ' :: rest).dropWhile p = cs.dropWhile p ++ ' ' :: rest := by
  rw [List.dropWhile_append, List.dropWhile_cons_of_neg (by simp [h])]
  split
  · rename_i hempty
    rw [List.isEmpty_iff.1 hempty, List.nil_append]
  · rfl

theorem prefix_before_space {text : List Char} (h : ' ' ∉ text) : text <+: cs ++ ' ' :: rest ↔ text <+: cs := by
  constructor
  · intro hprefix
    by_cases hlength : text.length ≤ cs.length
    · exact List.prefix_of_prefix_length_le hprefix (List.prefix_append _ _) hlength
    · -- a longer text reaches the space
      have hspace : cs ++ [' '] <+: cs ++ ' ' :: rest := (List.prefix_append_right_inj cs).2 ⟨rest, rfl⟩
      have hlonger : (cs ++ [' ']).length ≤ text.length := by
        rw [List.length_append, List.length_singleton]
        omega
      have hinside := List.prefix_of_prefix_length_le hspace hprefix hlonger
      exact absurd (hinside.subset (by simp)) h
  · exact fun hprefix => hprefix.trans (List.prefix_append _ _)

theorem Pattern.word?_before_space : word? (cs ++ ' ' :: rest) = word? cs := by
  have hspace : Text.isWord ' ' = false := Text.not_isWord_of_isBlank (by decide)
  cases cs with
  | nil => rw [List.nil_append, word?, word?, Text.isWordStart, hspace]; rfl
  | cons c cs => rw [List.cons_append, word?, word?, takeWhile_before_space hspace]

theorem Pattern.number?_before_space : number? (cs ++ ' ' :: rest) = number? cs := by
  have hspace : Text.isWordDigit ' ' = false := by decide
  rw [number?, number?, takeWhile_before_space hspace, dropWhile_before_space hspace]
  cases cs.dropWhile Text.isWordDigit with
  | nil => rfl
  | cons c after =>
      by_cases hc : c = '.'
      · subst hc
        simp [takeWhile_before_space hspace]
      · simp [hc]

theorem Pattern.quoted?_of_head {c : Char} (h : c ≠ '"') : quoted? (c :: cs) = none := by
  unfold quoted?
  split
  · rename_i heq
    exact absurd (List.cons.inj heq).1 h
  · rfl

/-- What comes after a space does not change what a pattern matches, unless a comment or a quotation runs over it. -/
theorem Pattern.lexeme?_before_space {pattern : Pattern} (hspace : ∀ text ∈ pattern.spellings, ' ' ∉ text.toList)
    (hcomment : ¬ "--".toList <+: cs) (hquote : cs.head? ≠ some '"') :
    pattern.lexeme? (cs ++ ' ' :: rest) = pattern.lexeme? cs := by
  have hspelled : pattern.spellings ≠ [] → pattern.lexeme? (cs ++ ' ' :: rest) = pattern.lexeme? cs := by
    intro hne
    rw [lexeme?_of_spellings hne, lexeme?_of_spellings hne]
    refine congrArg (Option.map String.toList) (List.find?_congr fun text htext => ?_)
    rw [Bool.eq_iff_iff, List.isPrefixOf_iff_prefix, List.isPrefixOf_iff_prefix, prefix_before_space (hspace text htext)]
  cases pattern with
  | exactly text => exact hspelled (List.cons_ne_nil _ _)
  | boolean => exact hspelled (List.cons_ne_nil _ _)
  | comment =>
      have hcomment' : ¬ "--".toList <+: cs ++ ' ' :: rest := by rwa [prefix_before_space (by decide)]
      rw [← List.isPrefixOf_iff_prefix] at hcomment hcomment'
      rw [lexeme?, lexeme?, if_neg hcomment, if_neg hcomment']
  | word => exact word?_before_space
  | number => exact number?_before_space
  | quoted =>
      cases cs with
      | nil => rfl
      | cons c cs =>
          have hc : c ≠ '"' := by simpa using hquote
          exact (quoted?_of_head hc).trans (quoted?_of_head hc).symm

theorem spaceless_spellings : ∀ rule ∈ lexemeRules, ∀ text ∈ rule.2.spellings, ' ' ∉ text.toList := by
  decide

theorem firstLexeme?_before_space (hcomment : ¬ "--".toList <+: cs) (hquote : cs.head? ≠ some '"') :
    firstLexeme? (cs ++ ' ' :: rest) = firstLexeme? cs := by
  rw [firstLexeme?, firstLexeme?, ← List.head?_filterMap, ← List.head?_filterMap]
  refine congrArg List.head? (List.filterMap_congr fun rule hrule => ?_)
  dsimp only
  rw [Pattern.lexeme?_before_space (spaceless_spellings rule hrule) hcomment hquote]

end Isolation

/-! ## Lexemes are cut as they are -/

section Cut

variable {cs lexeme : List Char} {tag : Tag} {pattern : Pattern}

theorem findSome?_of_lookup {rules : List (Tag × Pattern)} (hlookup : rules.lookup tag = some pattern)
    (hbefore : ∀ rule ∈ rules.takeWhile (·.1 ≠ tag), rule.2.lexeme? cs = none)
    (hmatch : pattern.lexeme? cs = some lexeme) :
    (rules.findSome? fun (tag, pattern) => (pattern.lexeme? cs).map (tag, ·)) = some (tag, lexeme) := by
  induction rules with
  | nil => cases hlookup
  | cons rule rules ih =>
      obtain ⟨other, first⟩ := rule
      by_cases htag : other = tag
      · subst htag
        rw [List.lookup_cons, beq_self_eq_true] at hlookup
        cases hlookup
        rw [List.findSome?_cons]
        dsimp only
        rw [hmatch]
        rfl
      · rw [List.takeWhile_cons_of_pos (by simpa using htag), List.forall_mem_cons] at hbefore
        rw [List.lookup_cons, beq_eq_false_iff_ne.2 (Ne.symm htag)] at hlookup
        rw [List.findSome?_cons]
        dsimp only
        rw [hbefore.1]
        exact ih hlookup hbefore.2

theorem before_name (hreserved : ∀ text ∈ reserved, ¬ text.toList <+: cs) (hcomment : ¬ "--".toList <+: cs) :
    ∀ rule ∈ lexemeRules.takeWhile (·.1 ≠ .name), rule.2.lexeme? cs = none := by
  -- the first rule is the one for comments, and all others up to names spell something out
  have hspelled : ∀ rule ∈ (lexemeRules.takeWhile (·.1 ≠ .name)).tail, rule.2.spellings ≠ [] := by decide
  have hrules : lexemeRules.takeWhile (·.1 ≠ .name)
      = (.comment, .comment) :: (lexemeRules.takeWhile (·.1 ≠ .name)).tail := rfl
  rw [hrules, List.forall_mem_cons]
  constructor
  · rw [← List.isPrefixOf_iff_prefix] at hcomment
    rw [Pattern.lexeme?, if_neg hcomment]
  · intro rule hrule
    rw [Pattern.lexeme?_of_spellings (hspelled rule hrule), Option.map_eq_none_iff, List.find?_eq_none]
    intro text htext
    rw [List.isPrefixOf_iff_prefix]
    refine hreserved text ?_
    rw [← reserved_eq, List.mem_flatMap]
    exact ⟨rule, List.mem_of_mem_tail hrule, htext⟩

theorem not_reserved_of_head {c : Char} (h : Text.isWordStart c = false) :
    ∀ text ∈ reserved, ¬ text.toList <+: c :: cs := by
  have hheads : ∀ text ∈ reserved, text.toList.head?.any Text.isWordStart = true := by decide +kernel
  intro text htext hprefix
  have hhead := hheads text htext
  cases hchars : text.toList with
  | nil =>
      rw [hchars] at hhead
      cases hhead
  | cons d ds =>
      rw [hchars] at hhead hprefix
      rw [← (List.cons_prefix_cons.1 hprefix).1, ← Bool.not_eq_true] at h
      exact h hhead

theorem not_comment_of_head {c : Char} (h : c ≠ '-') : ¬ "--".toList <+: c :: cs :=
  fun hprefix => h (List.cons_prefix_cons.1 hprefix).1.symm

theorem firstLexeme?_name {c : Char} (hc : Text.isWordStart c = true) (hcs : ∀ d ∈ cs, Text.isWord d = true)
    (hreserved : ∀ text ∈ reserved, ¬ text.toList <+: c :: cs) (hminus : c ≠ '-') :
    firstLexeme? (c :: cs) = some (.name, c :: cs) := by
  refine findSome?_of_lookup rfl (before_name hreserved (not_comment_of_head hminus)) ?_
  rw [Pattern.lexeme?, Pattern.word?, if_pos hc, List.takeWhile_eq_self_iff.2 hcs]

theorem before_number {c : Char} (hc : Text.isWordStart c = false) (hminus : c ≠ '-') :
    ∀ rule ∈ lexemeRules.takeWhile (·.1 ≠ .number), rule.2.lexeme? (c :: cs) = none := by
  have hrules : lexemeRules.takeWhile (·.1 ≠ .number) = lexemeRules.takeWhile (·.1 ≠ .name) ++ [(.name, .word)] := rfl
  rw [hrules, List.forall_mem_append, List.forall_mem_singleton]
  refine ⟨before_name (not_reserved_of_head hc) (not_comment_of_head hminus), ?_⟩
  rw [Pattern.lexeme?, Pattern.word?, hc]
  rfl

theorem firstLexeme?_number {c : Char} (hc : Text.isWordStart c = false) (hminus : c ≠ '-')
    (hmatch : Pattern.number? (c :: cs) = some lexeme) : firstLexeme? (c :: cs) = some (.number, lexeme) :=
  findSome?_of_lookup rfl (before_number hc hminus) hmatch

theorem firstLexeme?_quoted {body rest : List Char} (h : ∀ c ∈ body, c ≠ '"' ∧ c ≠ '\n') :
    firstLexeme? ('"' :: (body ++ '"' :: rest)) = some (.string, '"' :: (body ++ ['"'])) := by
  have hrules : lexemeRules.takeWhile (·.1 ≠ .string) = lexemeRules.takeWhile (·.1 ≠ .number) ++ [(.number, .number)] :=
    rfl
  have hnumber : Pattern.number? ('"' :: (body ++ '"' :: rest)) = none := by
    have hquote : Text.isWordDigit '"' = false := by decide +kernel
    simp [Pattern.number?, hquote]
  have hbody : (body ++ '"' :: rest).takeWhile (fun c => c ≠ '"' && c ≠ '\n') = body := by
    rw [List.takeWhile_append_of_pos (by simpa using h)]
    simp
  refine findSome?_of_lookup (show lexemeRules.lookup .string = some .quoted from rfl) ?_ ?_
  · rw [hrules, List.forall_mem_append, List.forall_mem_singleton]
    exact ⟨before_number (by decide +kernel) (by decide), hnumber⟩
  · simp only [Pattern.lexeme?, Pattern.quoted?, hbody, List.drop_left]
    rfl

theorem number?_whole {digits : List Char} (hne : digits ≠ []) (h : ∀ d ∈ digits, Text.isWordDigit d = true) :
    Pattern.number? digits = some digits := by
  have hdrop : digits.dropWhile Text.isWordDigit = [] := List.dropWhile_eq_nil_iff.2 h
  simp [Pattern.number?, List.takeWhile_eq_self_iff.2 h, hdrop, hne]

theorem number?_point {whole fraction : List Char} (hwhole : ∀ d ∈ whole, Text.isWordDigit d = true)
    (hne : fraction ≠ []) (hfraction : ∀ d ∈ fraction, Text.isWordDigit d = true) :
    Pattern.number? (whole ++ '.' :: fraction) = some (whole ++ '.' :: fraction) := by
  have hpoint : Text.isWordDigit '.' = false := by decide +kernel
  have htake : (whole ++ '.' :: fraction).takeWhile Text.isWordDigit = whole := by
    rw [List.takeWhile_append_of_pos hwhole, List.takeWhile_cons_of_neg (by simp [hpoint]), List.append_nil]
  have hdrop : (whole ++ '.' :: fraction).dropWhile Text.isWordDigit = '.' :: fraction := by
    rw [List.dropWhile_append_of_pos hwhole, List.dropWhile_cons_of_neg (by simp [hpoint])]
  simp [Pattern.number?, htake, hdrop, List.takeWhile_eq_self_iff.2 hfraction, hne]

/-- What is between a lexeme and the end of the text: nothing, or a space and more. -/
def Gap (rest : List Char) : Prop :=
  rest = [] ∨ ∃ more, rest = ' ' :: more

theorem firstLexeme?_before_gap {rest : List Char} (h : firstLexeme? cs = some (tag, cs))
    (hcomment : ¬ "--".toList <+: cs) (hquote : cs.head? ≠ some '"') (hrest : Gap rest) :
    firstLexeme? (cs ++ rest) = some (tag, cs) := by
  rcases hrest with rfl | ⟨more, rfl⟩
  · rw [List.append_nil, h]
  · rw [firstLexeme?_before_space hcomment hquote, h]

theorem spellings_stand : ∀ rule ∈ lexemeRules, ∀ text ∈ rule.2.spellings,
    firstLexeme? text.toList = some (rule.1, text.toList) ∧ "--".toList.isPrefixOf text.toList = false
      ∧ text.toList.head?.any (fun c => c ≠ '"' ∧ Text.isBlank c = false) = true := by
  decide +kernel

theorem not_isBlank_of_isWord {c : Char} (h : Text.isWord c = true) : Text.isBlank c = false := by
  by_contra hblank
  rw [Text.not_isWord_of_isBlank (Bool.of_not_eq_false hblank)] at h
  cases h

theorem wordStart_stands {c : Char} (h : Text.isWordStart c = true) :
    c ≠ '-' ∧ c ≠ '"' ∧ Text.isBlank c = false := by
  refine ⟨?_, ?_, not_isBlank_of_isWord (Bool.and_eq_true_iff.1 h).1⟩
  · rintro rfl
    exact absurd h (by decide +kernel)
  · rintro rfl
    exact absurd h (by decide +kernel)

theorem figure_stands {c : Char} (h : Text.isWordDigit c = true ∨ c = '.') :
    Text.isWordStart c = false ∧ c ≠ '-' ∧ c ≠ '"' ∧ Text.isBlank c = false := by
  rcases h with h | rfl
  · refine ⟨by simp [Text.isWordStart, h], ?_, ?_, not_isBlank_of_isWord (Text.isWord_of_isWordDigit h)⟩
    · rintro rfl
      exact absurd h (by decide +kernel)
    · rintro rfl
      exact absurd h (by decide +kernel)
  · decide +kernel

/-- A lexeme that stands alone begins with no blank and is cut as it is. -/
theorem LexemeText.stands (h : LexemeText tag lexeme) :
    ∃ c cs, lexeme = c :: cs ∧ Text.isBlank c = false
      ∧ ∀ rest, Gap rest → firstLexeme? (lexeme ++ rest) = some (tag, lexeme) := by
  have hnumber : ∀ text, Pattern.number? text = some text → ∃ c cs, text = c :: cs ∧ Text.isBlank c = false
      ∧ ∀ rest, Gap rest → firstLexeme? (text ++ rest) = some (.number, text) := by
    intro text hmatch
    obtain ⟨c, cs, rfl, hc⟩ := Pattern.exists_of_number? hmatch
    obtain ⟨hstart, hminus, hquote, hblank⟩ := figure_stands hc
    refine ⟨c, cs, rfl, hblank, fun rest hrest => ?_⟩
    exact firstLexeme?_before_gap (firstLexeme?_number hstart hminus hmatch) (not_comment_of_head hminus)
      (by simpa using hquote) hrest
  cases h with
  | @spelled tag pattern text hrule htext =>
      obtain ⟨hfirst, hcomment, hhead⟩ := spellings_stand _ hrule text htext
      obtain ⟨c, hc, hhead⟩ := (Option.any_eq_true _ _).1 hhead
      obtain ⟨hquote, hblank⟩ := of_decide_eq_true hhead
      obtain ⟨cs, hcs⟩ := List.head?_eq_some_iff.1 hc
      refine ⟨c, cs, hcs, hblank, fun rest hrest => firstLexeme?_before_gap hfirst ?_ ?_ hrest⟩
      · rw [← List.isPrefixOf_iff_prefix, hcomment]
        simp
      · rw [hc]
        simpa using hquote
  | @name c cs hc hcs hreserved =>
      obtain ⟨hminus, hquote, hblank⟩ := wordStart_stands hc
      refine ⟨c, cs, rfl, hblank, fun rest hrest => ?_⟩
      exact firstLexeme?_before_gap (firstLexeme?_name hc hcs hreserved hminus) (not_comment_of_head hminus)
        (by simpa using hquote) hrest
  | whole hne hdigits => exact hnumber _ (number?_whole hne hdigits)
  | point hwhole hne hfraction => exact hnumber _ (number?_point hwhole hne hfraction)
  | @quoted body hbody =>
      -- the closing quote ends the lexeme, whatever comes after it
      refine ⟨'"', body ++ ['"'], rfl, by decide, fun rest _ => ?_⟩
      rw [List.cons_append, List.append_assoc, List.singleton_append, firstLexeme?_quoted hbody]

theorem LexemeText.tag_ne_comment (h : LexemeText tag lexeme) : tag ≠ .comment := by
  have hcomment : ∀ rule ∈ lexemeRules, rule.2.spellings ≠ [] → rule.1 ≠ .comment := by decide
  cases h with
  | spelled hrule htext => exact hcomment _ hrule (List.ne_nil_of_mem htext)
  | name => decide
  | whole => decide
  | point => decide
  | quoted => decide

end Cut

/-! ## Scans of lexemes -/

theorem Scan.ofChars_skip (text rest : List Char) (p : Position) :
    ofChars text.length p (text ++ rest) = ofChars 0 (text.foldl Position.advance p) rest := by
  induction text generalizing p with
  | nil => rfl
  | cons c text ih => exact ih (p.advance c)

theorem LexemeText.ofChars {tag : Tag} {lexeme rest : List Char} (h : LexemeText tag lexeme) (hrest : Gap rest)
    (p : Position) :
    Scan.ofChars 0 p (lexeme ++ rest)
      = .token ⟨tag, p, String.ofList lexeme⟩ (Scan.ofChars 0 (lexeme.foldl Position.advance p) rest) := by
  have htag := h.tag_ne_comment
  obtain ⟨c, cs, rfl, hblank, hfirst⟩ := h.stands
  have hfirst' : firstLexeme? (c :: (cs ++ rest)) = some (tag, c :: cs) := hfirst rest hrest
  rw [List.cons_append, Scan.ofChars, hblank, hfirst']
  simp only [htag, if_false, List.length_cons, Nat.add_sub_cancel, Scan.ofChars_skip, List.foldl_cons]
  rfl

theorem Scan.ofChars_space (p : Position) (cs : List Char) : ofChars 0 p (' ' :: cs) = ofChars 0 (p.advance ' ') cs :=
  rfl

theorem Scan.toList_token {t : Token} {rest : Scan} {ts : List Token} (h : rest.toList = .ok ts) :
    (token t rest).toList = .ok (t :: ts) := by
  rw [toList, h]
  rfl

theorem Scan.toList_intercalate {lexemes : List (Tag × String)} (h : ∀ l ∈ lexemes, LexemeText l.1 l.2.toList)
    (p : Position) : ∃ ts,
      (ofChars 0 p ([' '].intercalate (lexemes.map (·.2.toList)))).toList = .ok ts ∧ ts.map Token.lexeme = lexemes := by
  induction lexemes generalizing p with
  | nil => exact ⟨[], rfl, rfl⟩
  | cons l lexemes ih =>
      obtain ⟨hl, hlexemes⟩ := List.forall_mem_cons.1 h
      have hkept : ∀ position, Token.lexeme ⟨l.1, position, String.ofList l.2.toList⟩ = l := fun position => by
        rw [Token.lexeme, String.ofList_toList]
      cases lexemes with
      | nil =>
          have hscan := hl.ofChars (.inl rfl) p
          rw [List.append_nil] at hscan
          refine ⟨_, ?_, by rw [List.map_singleton, hkept p]⟩
          rw [List.map_singleton, List.intercalate_singleton, hscan]
          rfl
      | cons next lexemes =>
          have hscan := fun more => hl.ofChars (.inr ⟨more, rfl⟩) p
          obtain ⟨ts, hts, hsame⟩ := ih hlexemes ((l.2.toList.foldl Position.advance p).advance ' ')
          refine ⟨_, ?_, by rw [List.map_cons, hkept p, hsame]⟩
          rw [List.map_cons, List.map_cons, List.intercalate_cons_cons, List.append_assoc, List.singleton_append, hscan,
            ofChars_space]
          exact toList_token hts

/-- Lexemes with spaces between them are the tokens of the text that they make. -/
theorem tokenize_intercalate {lexemes : List (Tag × String)} (h : ∀ l ∈ lexemes, LexemeText l.1 l.2.toList) :
    ∃ ts, tokenize (" ".intercalate (lexemes.map Prod.snd)) = .ok ts ∧ ts.map Token.lexeme = lexemes := by
  obtain ⟨ts, hts, hsame⟩ := Scan.toList_intercalate h .start
  refine ⟨ts, ?_, hsame⟩
  rw [tokenize, Scan.ofSource, String.toList_intercalate, List.map_map]
  exact hts

end Scriptlet
