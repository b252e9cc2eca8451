import Mathlib.Tactic
import Scriptlet.Proofs.Number.Range
import Scriptlet.Proofs.Syntax.Printing
import Scriptlet.Token.Scan
import Scriptlet.Value

/-!
# What tokens look like

The text of a token of a scan is what the rule for its tag matches, and no earlier rule matches there. So a name is the
literal of no number, truth value or nil.
-/

namespace Scriptlet

/-! ## Rules -/

/-- What is read of a token, apart from its place: the tag and the text. -/
def Token.lexeme (t : Token) : Tag × String :=
  (t.tag, t.text)

/-- A token that the rules give somewhere. -/
def Token.Scanned (t : Token) : Prop :=
  ∃ cs lexeme, firstLexeme? cs = some (t.tag, lexeme) ∧ t.text = String.ofList lexeme

/-- What holds of every lexeme but comments holds of the tokens of a scan. -/
theorem Scan.forall_of_ofChars {P : Token → Prop}
    (hP : ∀ cs tag lexeme p, firstLexeme? cs = some (tag, lexeme) → tag ≠ .comment → P ⟨tag, p, String.ofList lexeme⟩)
    {skip : Nat} {p : Position} {cs : List Char} {ts : List Token} (h : (ofChars skip p cs).toList = .ok ts) :
    ∀ t ∈ ts, P t := by
  induction cs generalizing skip p ts with
  | nil =>
      cases skip <;> (rw [ofChars] at h; cases h; exact fun _ ht => absurd ht List.not_mem_nil)
  | cons c cs ih =>
      cases skip with
      | succ skip =>
          rw [ofChars] at h
          exact ih h
      | zero =>
          rw [ofChars] at h
          split at h
          · exact ih h
          · split at h
            · cases h
            · rename_i tag lexeme hlexeme
              dsimp only at h
              split at h
              · exact ih h
              · rename_i htag
                rw [toList] at h
                cases hrest : (ofChars (lexeme.length - 1) (p.advance c) cs).toList with
                | error e =>
                    rw [hrest] at h
                    cases h
                | ok rest =>
                    rw [hrest] at h
                    cases h
                    exact List.forall_mem_cons.2 ⟨hP _ tag lexeme p hlexeme htag, ih hrest⟩

theorem scanned_of_tokenize {source : String} {ts : List Token} (h : tokenize source = .ok ts) :
    ∀ t ∈ ts, t.Scanned :=
  Scan.forall_of_ofChars (fun cs _ lexeme _ hlexeme _ => ⟨cs, lexeme, hlexeme, rfl⟩) h

theorem findSome?_rules {rules : List (Tag × Pattern)} (hnodup : (rules.map Prod.fst).Nodup) {cs : List Char}
    {tag : Tag} {lexeme : List Char}
    (h : (rules.findSome? fun (tag, pattern) => (pattern.lexeme? cs).map (tag, ·)) = some (tag, lexeme)) :
    (∃ pattern, rules.lookup tag = some pattern ∧ pattern.lexeme? cs = some lexeme)
      ∧ ∀ rule ∈ rules.takeWhile (·.1 ≠ tag), rule.2.lexeme? cs = none := by
  induction rules with
  | nil => cases h
  | cons rule rules ih =>
      obtain ⟨other, pattern⟩ := rule
      rw [List.map_cons, List.nodup_cons] at hnodup
      rw [List.findSome?_cons] at h
      dsimp only at h
      cases hfirst : pattern.lexeme? cs with
      | some first =>
          rw [hfirst] at h
          cases h
          exact ⟨⟨pattern, by rw [List.lookup_cons, beq_self_eq_true, hfirst]; exact ⟨rfl, rfl⟩⟩, by simp⟩
      | none =>
          rw [hfirst] at h
          obtain ⟨⟨found, hlookup, hfound⟩, hbefore⟩ := ih hnodup.2 h
          have hne : other ≠ tag := by
            rintro rfl
            obtain ⟨before, after, rfl, -⟩ := List.lookup_eq_some_iff.1 hlookup
            exact hnodup.1 (by simp)
          refine ⟨⟨found, ?_, hfound⟩, ?_⟩
          · rw [List.lookup_cons, beq_eq_false_iff_ne.2 hne.symm, hlookup]
          · rw [List.takeWhile_cons_of_pos (by simpa using hne), List.forall_mem_cons]
            exact ⟨hfirst, hbefore⟩

/-- The first lexeme is what the rule for its tag matches, and no earlier rule matches. -/
theorem firstLexeme?_eq_some {cs : List Char} {tag : Tag} {lexeme : List Char}
    (h : firstLexeme? cs = some (tag, lexeme)) :
    (∃ pattern, lexemeRules.lookup tag = some pattern ∧ pattern.lexeme? cs = some lexeme)
      ∧ ∀ rule ∈ lexemeRules.takeWhile (·.1 ≠ tag), rule.2.lexeme? cs = none :=
  findSome?_rules (by decide) h

theorem Token.Scanned.tag_ne_eof {t : Token} (h : t.Scanned) : t.tag ≠ .eof := by
  obtain ⟨cs, lexeme, hlexeme, -⟩ := h
  obtain ⟨⟨pattern, hlookup, -⟩, -⟩ := firstLexeme?_eq_some hlexeme
  intro heof
  rw [heof] at hlookup
  cases hlookup

/-! ## Names -/

/-- No word is a finite number. -/
theorem Number.parseFinite?_of_isWordStart {c : Char} (hc : Text.isWordStart c = true) (cs : List Char) :
    parseFinite? (String.ofList (c :: cs)) = none := by
  have hdigit : c.isDigit = false := by
    by_contra hdigit
    rw [Text.not_isWordStart (.inl (by simpa using hdigit))] at hc
    cases hc
  have hpoint : c ≠ '.' := fun h => by rw [Text.not_isWordStart (.inr (.inl h))] at hc; cases hc
  have hplus : c ≠ '+' := fun h => by rw [Text.not_isWordStart (.inr (.inr (.inl h)))] at hc; cases hc
  have hminus : c ≠ '-' := fun h => by rw [Text.not_isWordStart (.inr (.inr (.inr h)))] at hc; cases hc
  have hsign : splitSign (c :: cs) = (false, c :: cs) := by
    rw [splitSign]
    · rintro _ ⟨⟩; exact hplus rfl
    · rintro _ ⟨⟩; exact hminus rfl
  have hfraction : splitFraction (c :: cs) = ([], c :: cs) := by
    rw [splitFraction]
    rintro _ ⟨⟩; exact hpoint rfl
  have hdecimal : decimalRank? (c :: cs) = none := by
    simp [decimalRank?, hdigit, hfraction]
  rw [parseFinite?_unsigned hsign, hdecimal]
  rfl

theorem Pattern.isPrefixOf_of_word? {cs lexeme : List Char} (h : word? cs = some lexeme) : lexeme <+: cs := by
  cases cs with
  | nil => cases h
  | cons c cs =>
      rw [word?] at h
      split at h
      · cases h
        exact (List.prefix_cons_inj c).2 (List.takeWhile_prefix _)
      · cases h

theorem Pattern.exists_of_word? {cs lexeme : List Char} (h : word? cs = some lexeme) :
    ∃ c rest, lexeme = c :: rest ∧ Text.isWordStart c = true ∧ ∀ d ∈ rest, Text.isWord d = true := by
  cases cs with
  | nil => cases h
  | cons c cs =>
      rw [word?] at h
      split at h
      · rename_i hstart
        cases h
        exact ⟨c, _, rfl, hstart, List.all_eq_true.1 List.all_takeWhile⟩
      · cases h

/-- A token is cut by the rule for its tag. -/
theorem Token.Scanned.exists_lexeme {t : Token} (h : t.Scanned) {pattern : Pattern}
    (hrule : lexemeRules.lookup t.tag = some pattern) :
    ∃ cs lexeme, pattern.lexeme? cs = some lexeme ∧ t.text = String.ofList lexeme := by
  obtain ⟨cs, lexeme, hlexeme, htext⟩ := h
  obtain ⟨⟨pattern', hlookup, hmatch⟩, -⟩ := firstLexeme?_eq_some hlexeme
  cases hrule.symm.trans hlookup
  exact ⟨cs, lexeme, hmatch, htext⟩

/-- A name begins like a word and goes on like one. -/
theorem Token.Scanned.exists_word {t : Token} (h : t.Scanned) (htag : t.tag = .name) :
    ∃ c cs, t.text = String.ofList (c :: cs) ∧ Text.isWordStart c = true ∧ ∀ d ∈ cs, Text.isWord d = true := by
  obtain ⟨_, _, hword, htext⟩ := h.exists_lexeme (show lexemeRules.lookup t.tag = some .word by rw [htag]; rfl)
  obtain ⟨c, cs, rfl, hstart, hrest⟩ := Pattern.exists_of_word? hword
  exact ⟨c, cs, htext, hstart, hrest⟩

/-- A name is the literal of the string that it is. -/
theorem Token.Scanned.ofLiteral {t : Token} (h : t.Scanned) (htag : t.tag = .name) :
    Value.ofLiteral t.text = .string t.text := by
  obtain ⟨cs, lexeme, hlexeme, htext⟩ := h
  rw [htag] at hlexeme
  obtain ⟨⟨pattern, hlookup, hmatch⟩, hbefore⟩ := firstLexeme?_eq_some hlexeme
  cases hlookup
  have hword : Pattern.word? cs = some lexeme := hmatch
  have hspells : ∀ word, t.text = word → word.toList.isPrefixOf cs = true := by
    intro word hw
    rw [List.isPrefixOf_iff_prefix, ← hw, htext, String.toList_ofList]
    exact Pattern.isPrefixOf_of_word? hword
  have hnil : Pattern.lexeme? cs (.exactly "nil") = none :=
    hbefore (.nilKw, .exactly "nil") (List.mem_of_getElem? (i := 10) rfl)
  have hboolean : Pattern.lexeme? cs .boolean = none :=
    hbefore (.boolean, .boolean) (List.mem_of_getElem? (i := 14) rfl)
  have hne_nil : t.text ≠ "nil" := by
    intro hw
    simp only [Pattern.lexeme?, hspells _ hw, if_true] at hnil
    cases hnil
  have hne_true : t.text ≠ "true" := by
    intro hw
    simp only [Pattern.lexeme?, hspells _ hw, if_true] at hboolean
    cases hboolean
  have hne_false : t.text ≠ "false" := by
    intro hw
    simp only [Pattern.lexeme?, hspells _ hw, if_true] at hboolean
    split at hboolean <;> cases hboolean
  have hnumber : Number.parseFinite? t.text = none := by
    obtain ⟨c, rest, rfl, hstart, -⟩ := Pattern.exists_of_word? hword
    rw [htext, Number.parseFinite?_of_isWordStart hstart]
  rw [Value.ofLiteral, if_neg hne_nil, if_neg hne_true, if_neg hne_false, hnumber]

/-! ## Literals -/

/-- The texts of literals. -/
inductive LiteralText : LiteralKind → String → Prop
  | nil : LiteralText .nil "nil"
  | boolean (b : Bool) : LiteralText .boolean (if b then "true" else "false")
  | number {c : Char} {cs : List Char} : Text.isWordDigit c = true ∨ c = '.' →
      LiteralText .number (String.ofList (c :: cs))
  | string (body : List Char) : LiteralText .string (String.ofList ('"' :: (body ++ ['"'])))

/-- A number is made of digits, or there is one point and digits after it. -/
theorem Pattern.cases_of_number? {cs lexeme : List Char} (h : number? cs = some lexeme) :
    (lexeme ≠ [] ∧ ∀ c ∈ lexeme, Text.isWordDigit c = true)
      ∨ ∃ whole fraction, lexeme = whole ++ '.' :: fraction ∧ (∀ c ∈ whole, Text.isWordDigit c = true)
        ∧ fraction ≠ [] ∧ ∀ c ∈ fraction, Text.isWordDigit c = true := by
  have htake : ∀ ds : List Char, ∀ c ∈ ds.takeWhile Text.isWordDigit, Text.isWordDigit c = true :=
    fun _ => List.all_eq_true.1 List.all_takeWhile
  unfold number? at h
  extract_lets whole fraction at h
  have hwhole : ∀ c ∈ whole, Text.isWordDigit c = true := htake cs
  have hfraction : ∀ c ∈ fraction, Text.isWordDigit c = true := by
    unfold fraction
    split
    · exact htake _
    · simp
  clear_value whole fraction
  split at h
  · rename_i hne
    cases h
    exact .inr ⟨whole, fraction, rfl, hwhole, hne, hfraction⟩
  · split at h
    · rename_i hne
      cases h
      exact .inl ⟨hne, hwhole⟩
    · cases h

theorem Pattern.exists_of_number? {cs lexeme : List Char} (h : number? cs = some lexeme) :
    ∃ c rest, lexeme = c :: rest ∧ (Text.isWordDigit c = true ∨ c = '.') := by
  rcases cases_of_number? h with ⟨hne, hdigits⟩ | ⟨whole, fraction, rfl, hwhole, -⟩
  · obtain ⟨c, rest, rfl⟩ := List.exists_cons_of_ne_nil hne
    exact ⟨c, rest, rfl, .inl (hdigits c List.mem_cons_self)⟩
  · cases whole with
    | nil => exact ⟨'.', fraction, rfl, .inr rfl⟩
    | cons c rest => exact ⟨c, _, rfl, .inl (hwhole c List.mem_cons_self)⟩

theorem Number.figure_of_isWordDigit {c : Char} (h : Text.isWordDigit c = true) : Figure c :=
  (Nat.lt_or_ge c.toNat 128).imp_left (Text.isDigit_of_isWordDigit h)

theorem Pattern.decimalText_of_number? {cs lexeme : List Char} (h : number? cs = some lexeme) :
    Number.DecimalText lexeme := by
  rcases cases_of_number? h with ⟨hne, hdigits⟩ | ⟨whole, fraction, rfl, hwhole, hne, hfraction⟩
  · exact .whole (fun c hc => Number.figure_of_isWordDigit (hdigits c hc)) hne
  · exact .point (fun c hc => Number.figure_of_isWordDigit (hwhole c hc))
      (fun c hc => Number.figure_of_isWordDigit (hfraction c hc)) hne

theorem Token.Scanned.decimalText {t : Token} (h : t.Scanned) (htag : t.tag = .number) :
    Number.DecimalText t.text.toList := by
  obtain ⟨_, _, hnumber, htext⟩ := h.exists_lexeme (show lexemeRules.lookup t.tag = some .number by rw [htag]; rfl)
  rw [htext, String.toList_ofList]
  exact Pattern.decimalText_of_number? hnumber

theorem Pattern.exists_of_quoted? {cs lexeme : List Char} (h : quoted? cs = some lexeme) :
    ∃ body, lexeme = '"' :: (body ++ ['"']) ∧ ∀ c ∈ body, c ≠ '"' ∧ c ≠ '\n' := by
  unfold quoted? at h
  split at h
  · dsimp only at h
    split at h
    · cases h
      refine ⟨_, rfl, fun c hc => ?_⟩
      simpa using List.all_eq_true.1 List.all_takeWhile c hc
    · cases h
  · cases h

theorem Token.Scanned.literalText {t : Token} (h : t.Scanned) {kind : LiteralKind} (htag : t.tag = kind.tag) :
    LiteralText kind t.text := by
  obtain ⟨cs, lexeme, hlexeme, htext⟩ := h
  rw [htag] at hlexeme
  obtain ⟨⟨pattern, hlookup, hmatch⟩, -⟩ := firstLexeme?_eq_some hlexeme
  rw [htext]
  cases kind with
  | nil =>
      cases hlookup
      simp only [Pattern.lexeme?] at hmatch
      split at hmatch
      · cases hmatch
        exact .nil
      · cases hmatch
  | boolean =>
      cases hlookup
      simp only [Pattern.lexeme?] at hmatch
      split at hmatch
      · cases hmatch
        exact .boolean true
      · split at hmatch
        · cases hmatch
          exact .boolean false
        · cases hmatch
  | number =>
      cases hlookup
      obtain ⟨c, rest, rfl, hc⟩ := Pattern.exists_of_number? hmatch
      exact .number hc
  | string =>
      cases hlookup
      obtain ⟨body, rfl, -⟩ := Pattern.exists_of_quoted? hmatch
      exact .string body

end Scriptlet
