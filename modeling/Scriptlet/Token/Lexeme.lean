import Scriptlet.Text.Word
import Scriptlet.Token.Basic

/-!
# Lexemes

The rules by which a text is cut into tokens. A rule pairs a tag with a pattern; the first rule whose pattern
matches at the start of the text wins, whatever follows the match. So `endx` is the keyword `end` and the name `x`.
-/

namespace Scriptlet

/-- The shapes of lexemes. -/
inductive Pattern where
  /-- Exactly this text. -/
  | exactly (text : String)
  /-- Two hyphens and the rest of the line. -/
  | comment
  /-- A truth value. -/
  | boolean
  /-- A word that does not begin with a digit. -/
  | word
  /-- Digits, or a point with digits after it and perhaps before it. -/
  | number
  /-- Text between double quotes, on one line. -/
  | quoted

namespace Pattern

/-- The word at the start of a text. -/
def word? : List Char → Option (List Char)
  | [] => none
  | c :: cs => if Text.isWordStart c then some (c :: cs.takeWhile Text.isWord) else none

/-- The number at the start of a text; a fraction is taken where there is one. -/
def number? (cs : List Char) : Option (List Char) :=
  let whole := cs.takeWhile Text.isWordDigit
  let fraction := match cs.dropWhile Text.isWordDigit with
    | '.' :: rest => rest.takeWhile Text.isWordDigit
    | _ => []
  if fraction ≠ [] then some (whole ++ '.' :: fraction)
  else if whole ≠ [] then some whole
  else none

/-- The quoted text at the start of a text. -/
def quoted? : List Char → Option (List Char)
  | '"' :: cs =>
    let body := cs.takeWhile fun c => c ≠ '"' && c ≠ '\n'
    match cs.drop body.length with
    | '"' :: _ => some ('"' :: body ++ ['"'])
    | _ => none
  | _ => none

/-- The part of the text that a pattern matches at its start. -/
def lexeme? (cs : List Char) : Pattern → Option (List Char)
  | exactly text => if text.toList.isPrefixOf cs then some text.toList else none
  | comment => if "--".toList.isPrefixOf cs then some (cs.takeWhile (· ≠ '\n')) else none
  | boolean =>
    if "true".toList.isPrefixOf cs then some "true".toList
    else if "false".toList.isPrefixOf cs then some "false".toList
    else none
  | word => word? cs
  | number => number? cs
  | quoted => quoted? cs

/-- A pattern matches at least one character, unless it asks for the empty text. -/
theorem lexeme?_ne_nil {cs lexeme : List Char} {p : Pattern} (hp : p ≠ exactly "") (h : p.lexeme? cs = some lexeme) :
    lexeme ≠ [] := by
  rintro rfl
  cases p with
  | exactly text => simp_all [lexeme?]
  | comment =>
      rw [lexeme?] at h
      split at h
      · rename_i hprefix
        obtain ⟨rest, rfl⟩ := List.isPrefixOf_iff_prefix.1 hprefix
        simp at h
      · cases h
  | boolean => grind [lexeme?]
  | word => cases cs <;> simp [lexeme?, word?] at h
  | number => grind [lexeme?, number?, List.append_ne_nil_of_right_ne_nil]
  | quoted => grind [lexeme?, quoted?.eq_def, List.append_ne_nil_of_right_ne_nil]

end Pattern

/-- The rules, in the order in which they are tried. -/
def lexemeRules : List (Tag × Pattern) :=
  [(.comment, .comment),
   (.endKw, .exactly "end"),
   (.functionKw, .exactly "function"),
   (.returnKw, .exactly "return"),
   (.whileKw, .exactly "while"),
   (.breakKw, .exactly "break"),
   (.doKw, .exactly "do"),
   (.ifKw, .exactly "if"),
   (.thenKw, .exactly "then"),
   (.elseKw, .exactly "else"),
   (.nilKw, .exactly "nil"),
   (.notKw, .exactly "not"),
   (.orKw, .exactly "or"),
   (.andKw, .exactly "and"),
   (.boolean, .boolean),
   (.name, .word),
   (.number, .number),
   (.string, .quoted),
   (.lparen, .exactly "("),
   (.rparen, .exactly ")"),
   (.comma, .exactly ","),
   (.plus, .exactly "+"),
   (.minus, .exactly "-"),
   (.times, .exactly "*"),
   (.divide, .exactly "/"),
   (.modulo, .exactly "%"),
   (.lessEq, .exactly "<="),
   (.greaterEq, .exactly ">="),
   (.less, .exactly "<"),
   (.greater, .exactly ">"),
   (.equal, .exactly "=="),
   (.notEqual, .exactly "~="),
   (.assign, .exactly "=")]

/-- The lexeme at the start of a text, with its tag. -/
def firstLexeme? (cs : List Char) : Option (Tag × List Char) :=
  lexemeRules.findSome? fun (tag, pattern) => (pattern.lexeme? cs).map (tag, ·)

theorem firstLexeme?_ne_nil {cs lexeme : List Char} {tag : Tag} (h : firstLexeme? cs = some (tag, lexeme)) :
    lexeme ≠ [] := by
  obtain ⟨⟨tag', pattern⟩, hrule, hmatch⟩ := List.exists_of_findSome?_eq_some h
  obtain ⟨lexeme', hlexeme, heq⟩ := Option.map_eq_some_iff.1 hmatch
  cases heq
  refine Pattern.lexeme?_ne_nil ?_ hlexeme
  rintro rfl
  simp [lexemeRules] at hrule

end Scriptlet
