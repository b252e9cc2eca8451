import Scriptlet.Text.Ranges
import Scriptlet.Token.Lexeme

/-!
# Scans

Scanning a text gives the stream of its tokens, which ends where the text ends or at the first character that
starts no lexeme. Blanks and comments separate tokens and are left out.
-/

namespace Scriptlet

/-- A character that starts no lexeme. -/
structure ScanError where
  position : Position
  found : Char
deriving DecidableEq

/-- What is shown to users. -/
def ScanError.message (e : ScanError) : String :=
  s!"{e.position.line}:{e.position.col}: lexical error: unexpected character '{e.found}'"

/-- The tokens of a text, one after the other, and how the text ends. -/
inductive Scan where
  | finished
  | failed (error : ScanError)
  | token (t : Token) (rest : Scan)
deriving DecidableEq

namespace Scan

/-- Scans characters from a position on, after passing over the first `skip` of them, which belong to a lexeme
that is already known. -/
def ofChars : Nat → Position → List Char → Scan
  | _, _, [] => finished
  | skip + 1, p, c :: cs => ofChars skip (p.advance c) cs
  | 0, p, c :: cs =>
    if Text.isBlank c then ofChars 0 (p.advance c) cs
    else match firstLexeme? (c :: cs) with
      | none => failed ⟨p, c⟩
      | some (tag, lexeme) =>
        let rest := ofChars (lexeme.length - 1) (p.advance c) cs
        if tag = .comment then rest else token ⟨tag, p, String.ofList lexeme⟩ rest

/-- Scans a source text. -/
def ofSource (source : String) : Scan :=
  ofChars 0 .start source.toList

/-- The next token or the error, and what comes after it. Nothing comes after an error. -/
def next? : Scan → Option (Except ScanError Token) × Scan
  | finished => (none, finished)
  | failed e => (some (.error e), finished)
  | token t rest => (some (.ok t), rest)

/-- All tokens, or the error that ends the scan. -/
def toList : Scan → Except ScanError (List Token)
  | finished => .ok []
  | failed e => .error e
  | token t rest => (rest.toList).map (t :: ·)

end Scan

/-- The tokens of a source text. -/
def tokenize (source : String) : Except ScanError (List Token) :=
  (Scan.ofSource source).toList

end Scriptlet
