import Mathlib.Tactic
import Scriptlet.Proofs.Token.Regex
import Scriptlet.Proofs.Token.Separation

/-!
# Where tokens are placed

The tokens of a text are pieces of it. Between them are blanks and comments only. The place of a token is told by the
text before it: how many lines end there, and how many characters come after the last line end.
-/

namespace Scriptlet

/-! ## Positions -/

/-- The position after a text. -/
def Position.after (before : List Char) : Position :=
  ⟨1 + before.count '\n', 1 + (before.reverse.takeWhile (· ≠ '\n')).length⟩

theorem Position.after_concat (before : List Char) (c : Char) :
    after (before ++ [c]) = (after before).advance c := by
  by_cases h : c = '\n'
  · subst h
    simp [after, advance, Nat.add_assoc]
  · simp [after, advance, h, List.count_append, Nat.add_assoc]

theorem Position.after_append (before text : List Char) :
    after (before ++ text) = text.foldl advance (after before) := by
  induction text generalizing before with
  | nil => simp
  | cons c text ih =>
      rw [List.foldl_cons, ← after_concat, ← ih, List.append_assoc, List.singleton_append]

/-! ## Rules -/

/-- The first rule that matches at the start of a text has this tag and matches this much. -/
def FirstRule (cs : List Char) (tag : Tag) (lexeme : List Char) : Prop :=
  ∃ earlier pattern later, lexemeRules = earlier ++ (tag, pattern) :: later
    ∧ (∀ rule ∈ earlier, rule.2.regex.matched? cs = none) ∧ pattern.regex.matched? cs = some lexeme

theorem firstRule_of_firstLexeme? {cs lexeme : List Char} {tag : Tag} (h : firstLexeme? cs = some (tag, lexeme)) :
    FirstRule cs tag lexeme := by
  obtain ⟨earlier, ⟨tag', pattern⟩, later, hrules, hmatch, hearlier⟩ := List.findSome?_eq_some_iff.1 h
  obtain ⟨lexeme', hlexeme, heq⟩ := Option.map_eq_some_iff.1 hmatch
  cases heq
  refine ⟨earlier, pattern, later, hrules, fun rule hrule => ?_, by rw [← Pattern.lexeme?_eq_matched?, hlexeme]⟩
  rw [← Pattern.lexeme?_eq_matched?]
  exact Option.map_eq_none_iff.1 (hearlier rule hrule)

theorem matched?_of_firstLexeme? {cs : List Char} (h : firstLexeme? cs = none) :
    ∀ rule ∈ lexemeRules, rule.2.regex.matched? cs = none := by
  intro rule hrule
  rw [← Pattern.lexeme?_eq_matched?]
  exact Option.map_eq_none_iff.1 (List.findSome?_eq_none_iff.1 h rule hrule)

theorem FirstRule.exists_append {cs lexeme : List Char} {tag : Tag} (h : FirstRule cs tag lexeme) :
    ∃ rest, cs = lexeme ++ rest := by
  obtain ⟨earlier, pattern, later, hrules, -, hmatch⟩ := h
  obtain ⟨rest, hrest⟩ := Regex.prefix_of_mem_ways (List.mem_of_mem_head? hmatch)
  exact ⟨rest, hrest.symm⟩

/-- No lexeme goes beyond its line. -/
theorem FirstRule.newline_not_mem {cs lexeme : List Char} {tag : Tag} (h : FirstRule cs tag lexeme) :
    '\n' ∉ lexeme := by
  obtain ⟨earlier, pattern, later, hrules, -, hmatch⟩ := h
  have hrule : (tag, pattern) ∈ lexemeRules := by simp [hrules]
  have hadmits : ∀ rule ∈ lexemeRules, rule.2.regex.admits '\n' = false := by decide
  intro hmem
  simpa [hadmits _ hrule] using Regex.admits_of_mem_ways (List.mem_of_mem_head? hmatch) hmem

/-! ## What is between tokens -/

/-- Blanks and comments before the rest of a text. A comment is two hyphens and all up to the next line end. -/
inductive Skipped : List Char → List Char → Prop
  | nil {rest : List Char} : Skipped [] rest
  | blank {c : Char} {gap rest : List Char} : Text.isBlank c = true → Skipped gap rest → Skipped (c :: gap) rest
  | comment {body gap rest : List Char} : '\n' ∉ body → (∀ c ∈ (gap ++ rest).head?, c = '\n') → Skipped gap rest →
      Skipped ('-' :: '-' :: body ++ gap) rest

/-- How the rest of a text, after what is before it, is divided into tokens, and the error that ends it if there is
one. -/
inductive Placed : List Char → List Char → List Token → Option ScanError → Prop
  | finished {before gap : List Char} : Skipped gap [] → Placed before gap [] none
  | failed {before gap : List Char} {c : Char} {rest : List Char} : Skipped gap (c :: rest) → Text.isBlank c = false →
      (∀ rule ∈ lexemeRules, rule.2.regex.matched? (c :: rest) = none) →
      Placed before (gap ++ c :: rest) [] (some ⟨.after (before ++ gap), c⟩)
  | token {before gap lexeme rest : List Char} {tag : Tag} {ts : List Token} {error : Option ScanError} :
      Skipped gap (lexeme ++ rest) → FirstRule (lexeme ++ rest) tag lexeme → lexeme ≠ [] → tag ≠ .comment →
      Placed (before ++ gap ++ lexeme) rest ts error →
      Placed before (gap ++ lexeme ++ rest) (⟨tag, .after (before ++ gap), String.ofList lexeme⟩ :: ts) error

/-- What is skipped at the start goes to the gap before the first token. -/
theorem Placed.skip {before chunk cs : List Char} {ts : List Token} {error : Option ScanError}
    (hchunk : ∀ gap rest, cs = gap ++ rest → Skipped gap rest → Skipped (chunk ++ gap) rest)
    (h : Placed (before ++ chunk) cs ts error) : Placed before (chunk ++ cs) ts error := by
  cases h with
  | finished hgap => exact .finished (hchunk _ _ (List.append_nil _).symm hgap)
  | failed hgap hblank hnone =>
      rw [List.append_assoc, ← List.append_assoc]
      exact .failed (hchunk _ _ rfl hgap) hblank hnone
  | token hgap hrule hne htag hrest =>
      rw [List.append_assoc before, ← List.append_assoc, ← List.append_assoc]
      rw [List.append_assoc before] at hrest
      exact .token (hchunk _ _ (List.append_assoc _ _ _) hgap) hrule hne htag hrest

theorem Placed.blank {before cs : List Char} {c : Char} {ts : List Token} {error : Option ScanError}
    (hc : Text.isBlank c = true) (h : Placed (before ++ [c]) cs ts error) : Placed before (c :: cs) ts error :=
  Placed.skip (fun _ _ _ hgap => .blank hc hgap) h

theorem Placed.comment {before body cs : List Char} {ts : List Token} {error : Option ScanError} (hbody : '\n' ∉ body)
    (hend : ∀ c ∈ cs.head?, c = '\n') (h : Placed (before ++ '-' :: '-' :: body) cs ts error) :
    Placed before ('-' :: '-' :: body ++ cs) ts error :=
  Placed.skip (fun _ _ hcs hgap => .comment hbody (hcs ▸ hend) hgap) h

/-! ## Scans -/

namespace Scan

/-- The tokens of a scan. -/
def tokens : Scan → List Token
  | finished => []
  | failed _ => []
  | token t rest => t :: rest.tokens

/-- The error that a scan ends with. -/
def error? : Scan → Option ScanError
  | finished => none
  | failed e => some e
  | token _ rest => rest.error?

theorem toList_eq (s : Scan) :
    s.toList = match s.error? with
      | none => .ok s.tokens
      | some e => .error e := by
  induction s with
  | finished => rfl
  | failed e => rfl
  | token t rest ih =>
      rw [toList, ih, error?, tokens]
      cases rest.error? <;> rfl

/-- The items of a scan come one after the other, and then nothing more. -/
theorem next?_iterate (s : Scan) (n : Nat) :
    ((fun s : Scan => s.next?.2)^[n] s).next?.1 = (s.tokens.map .ok ++ s.error?.toList.map .error)[n]? := by
  induction n generalizing s with
  | zero => cases s <;> rfl
  | succ n ih =>
      rw [Function.iterate_succ_apply, ih]
      cases s <;> simp [next?, tokens, error?]

theorem ofChars_lexeme {lexeme rest : List Char} {c : Char} {cs : List Char} (hcs : c :: cs = lexeme ++ rest)
    (hne : lexeme ≠ []) (before : List Char) :
    ofChars (lexeme.length - 1) ((Position.after before).advance c) cs
      = ofChars 0 (.after (before ++ lexeme)) rest := by
  obtain ⟨d, text, rfl⟩ := List.exists_cons_of_ne_nil hne
  cases hcs
  rw [Position.after_append, List.foldl_cons]
  exact ofChars_skip text rest _

end Scan

/-- The rule for comments is the first of all. -/
theorem comment_of_firstRule {cs lexeme : List Char} (h : FirstRule cs .comment lexeme) :
    ∃ body rest, cs = '-' :: '-' :: body ++ rest ∧ lexeme = '-' :: '-' :: body ∧ '\n' ∉ body
      ∧ ∀ c ∈ rest.head?, c = '\n' := by
  obtain ⟨earlier, pattern, later, hrules, -, hmatch⟩ := h
  have hpattern : pattern = .comment := by
    have hmem : (Tag.comment, pattern) ∈ lexemeRules := by simp [hrules]
    simpa [lexemeRules] using hmem
  rw [hpattern, ← Pattern.lexeme?_eq_matched?, Pattern.lexeme?] at hmatch
  split at hmatch
  · rename_i hprefix
    obtain ⟨rest, rfl⟩ := List.isPrefixOf_iff_prefix.1 hprefix
    cases hmatch
    refine ⟨rest.takeWhile (· ≠ '\n'), rest.dropWhile (· ≠ '\n'), ?_, by simp, ?_, ?_⟩
    · simp
    · intro hmem
      simpa using List.mem_takeWhile_imp hmem
    · intro c hc
      have hnot := List.head?_dropWhile_not (· ≠ '\n') rest
      rw [Option.mem_def.1 hc] at hnot
      simpa using hnot
  · cases hmatch

/-- The scan of the rest of a text divides it. -/
theorem placed_ofChars (before cs : List Char) :
    Placed before cs (Scan.ofChars 0 (.after before) cs).tokens (Scan.ofChars 0 (.after before) cs).error? := by
  induction hsize : cs.length using Nat.strong_induction_on generalizing before cs with
  | h n ih =>
    subst hsize
    cases cs with
    | nil => exact .finished .nil
    | cons c cs =>
        rw [Scan.ofChars]
        by_cases hblank : Text.isBlank c = true
        · rw [if_pos hblank, ← Position.after_concat]
          exact .blank hblank (ih _ (Nat.lt_succ_self _) _ _ rfl)
        · rw [if_neg hblank]
          cases hfirst : firstLexeme? (c :: cs) with
          | none =>
              have hnone := matched?_of_firstLexeme? hfirst
              have hfailed := @Placed.failed before [] c cs .nil (by simpa using hblank) hnone
              simpa [Scan.tokens, Scan.error?] using hfailed
          | some found =>
              obtain ⟨tag, lexeme⟩ := found
              have hrule := firstRule_of_firstLexeme? hfirst
              have hne := firstLexeme?_ne_nil hfirst
              obtain ⟨rest, hcs⟩ := hrule.exists_append
              have hshorter : rest.length < (c :: cs).length := by
                rw [hcs, List.length_append]
                exact Nat.lt_add_of_pos_left (List.length_pos_of_ne_nil hne)
              have hrest := ih _ hshorter (before ++ lexeme) rest rfl
              dsimp only
              rw [Scan.ofChars_lexeme hcs hne]
              by_cases htag : tag = .comment
              · subst htag
                obtain ⟨body, rest', hcs', rfl, hbody, hend⟩ := comment_of_firstRule hrule
                obtain rfl : rest = rest' := List.append_cancel_left (hcs.symm.trans hcs')
                rw [if_pos rfl, hcs]
                exact .comment hbody hend hrest
              · rw [hcs] at hrule
                rw [if_neg htag, hcs]
                have htoken := @Placed.token before [] lexeme rest tag _ _ .nil hrule hne htag (by simpa using hrest)
                simpa [Scan.tokens, Scan.error?] using htoken

end Scriptlet
