/-!
# Tokens

A token is a tagged piece of the source text with the place where it starts.
-/

namespace Scriptlet

/-- A place in a text: line and column, both counted from one. -/
structure Position where
  line : Nat
  col : Nat
deriving DecidableEq

namespace Position

/-- The place where a text starts. -/
def start : Position := ⟨1, 1⟩

/-- The place after a character. Only a line feed ends a line. -/
def advance (p : Position) (c : Char) : Position :=
  if c = '\n' then ⟨p.line + 1, 1⟩ else ⟨p.line, p.col + 1⟩

end Position

/-- The kinds of tokens. `eof` marks the end of a token list. -/
inductive Tag where
  | comment
  | endKw | functionKw | returnKw | whileKw | breakKw | doKw | ifKw | thenKw | elseKw
  | nilKw | notKw | orKw | andKw
  | boolean | number | string | name
  | lparen | rparen | comma
  | plus | minus | times | divide | modulo
  | lessEq | greaterEq | less | greater | equal | notEqual | assign
  | eof
deriving DecidableEq

namespace Tag

/-- The label of a tag, as it is shown to users. -/
def label : Tag → String
  | comment => "Comment"
  | endKw => "end"
  | functionKw => "function"
  | returnKw => "return"
  | whileKw => "while"
  | breakKw => "break"
  | doKw => "do"
  | ifKw => "if"
  | thenKw => "then"
  | elseKw => "else"
  | nilKw => "nil"
  | notKw => "not"
  | orKw => "or"
  | andKw => "and"
  | boolean => "boolean"
  | number => "number"
  | string => "string"
  | name => "id"
  | lparen => "lparen"
  | rparen => "rparen"
  | comma => "comma"
  | plus => "plus"
  | minus => "minus"
  | times => "mul"
  | divide => "div"
  | modulo => "divrem"
  | lessEq => "lesseq"
  | greaterEq => "greatereq"
  | less => "less"
  | greater => "greater"
  | equal => "eq"
  | notEqual => "neq"
  | assign => "assign"
  | eof => "EOF"

/-- Tags of tokens that can begin an expression. -/
def startsExpression : Tag → Bool
  | plus | minus | notKw | lparen | nilKw | name | boolean | number | string => true
  | _ => false

/-- Tags of tokens that can begin a statement. -/
def startsStatement : Tag → Bool
  | ifKw | whileKw | returnKw | breakKw | functionKw | name => true
  | _ => false

end Tag

/-- A tagged piece of text and the place where it starts. -/
structure Token where
  tag : Tag
  position : Position
  text : String
deriving DecidableEq

/-- A token as it is shown to users. -/
def Token.render (t : Token) : String :=
  s!"{t.tag.label} ({t.position.line}, {t.position.col}): {t.text}"

end Scriptlet
