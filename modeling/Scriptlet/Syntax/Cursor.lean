import Scriptlet.Token.Basic

/-!
# Cursors

A cursor stands at a token of a list that ends with an end mark. It moves forward one token at a time and never
passes an end mark.
-/

namespace Scriptlet

/-- The current token and those after it. -/
structure Cursor where
  current : Token
  upcoming : List Token

namespace Cursor

/-- The end mark after a token. -/
def endMark (last : Token) : Token :=
  ⟨.eof, ⟨last.position.line, last.position.col + last.text.length⟩, "EOF"⟩

/-- A cursor at the first of the given tokens, with an end mark after the last. -/
def ofTokens : List Token → Cursor
  | [] => ⟨⟨.eof, .start, "EOF"⟩, []⟩
  | t :: ts => ⟨t, ts ++ [endMark (ts.getLastD t)]⟩

/-- The tag of the current token. -/
def tag (c : Cursor) : Tag :=
  c.current.tag

/-- The tag of the token after the current one, or of the current one if it is the last. -/
def nextTag (c : Cursor) : Tag :=
  (c.upcoming.headD c.current).tag

/-- The cursor after the current token; an end mark is not passed. -/
def advance (c : Cursor) : Cursor :=
  match c.tag, c.upcoming with
  | .eof, _ => c
  | _, [] => c
  | _, t :: ts => ⟨t, ts⟩

end Cursor

end Scriptlet
