import Scriptlet.Syntax.Basic
import Scriptlet.Syntax.Cursor

/-!
# Reading programs

A parser moves a cursor over the tokens and gives a tree, or an error at the token that does not fit. The cursor
stays where it is after an error, so reading can go on from there.

The recursive parsers take a bound. It is enough if it exceeds the number of tokens that are left, which `Parser.program`
and `Parser.expression` see to.
-/

namespace Scriptlet

/-- A token that does not fit, and the tag that was needed if only one was. -/
structure ParseError where
  token : Token
  expected : Option Tag
deriving DecidableEq

namespace ParseError

/-- What is wrong. -/
def reason (e : ParseError) : String :=
  match e.expected with
  | some tag => s!"expected '{tag.label}', found '{e.token.text}'"
  | none => s!"unexpected symbol '{e.token.text}'"

/-- What is shown to users. -/
def message (e : ParseError) : String :=
  s!"{e.token.position.line}:{e.token.position.col}: {e.reason}"

end ParseError

/-- Parsers. -/
abbrev Parser := EStateM ParseError Cursor

namespace Parser

/-- Fails at the current token. -/
def unexpected : Parser α := do
  throw ⟨(← get).current, none⟩

/-- Takes the current token. -/
def take : Parser Token := do
  let c ← get
  set c.advance
  return c.current

/-- Takes a token with the given tag. -/
def expect (tag : Tag) : Parser Token := do
  let c ← get
  if c.tag = tag then take else throw ⟨c.current, some tag⟩

/-- Takes a name. -/
def takeName : Parser String := do
  if (← get).tag = .name then return (← take).text else unexpected

/-! ## Expressions -/

/-- The operators of a layer that follow, each with its operand. -/
def chainTail (layer : Layer) (operand : Parser Expr) : Nat → Parser (List Expr × List BinaryOp)
  | 0 => return ([], [])
  | bound + 1 => do
    match layer.operator? (← get).tag with
    | none => return ([], [])
    | some op =>
      let _ ← take
      let e ← operand
      let (es, ops) ← chainTail layer operand bound
      return (e :: es, op :: ops)

/-- A chain of one layer. -/
def chain (layer : Layer) (bound : Nat) (operand : Parser Expr) : Parser Expr := do
  let e ← operand
  let (es, ops) ← chainTail layer operand bound
  return .chain layer (e :: es) ops

/-- The operators before a primary. -/
def unaryOps : Nat → Parser (List UnaryOp)
  | 0 => return []
  | bound + 1 => do
    match UnaryOp.ofTag? (← get).tag with
    | none => return []
    | some op =>
      let _ ← take
      return op :: (← unaryOps bound)

/-- Arguments after the first. -/
def moreArguments (inner : Parser Expr) : Nat → Parser (List Expr)
  | 0 => return []
  | bound + 1 => do
    let tag := (← get).tag
    if tag = .rparen ∨ tag = .eof then return []
    else
      let _ ← expect .comma
      let e ← inner
      return e :: (← moreArguments inner bound)

/-- A name and its arguments in parentheses. -/
def callee (inner : Parser Expr) (bound : Nat) : Parser (String × List Expr) := do
  let name ← takeName
  let _ ← expect .lparen
  let args ←
    if (← get).tag = .rparen then pure []
    else do
      let e ← inner
      pure (e :: (← moreArguments inner bound))
  let _ ← expect .rparen
  return (name, args)

/-- A literal of the given kind. -/
def literal (kind : LiteralKind) : Parser Expr := do
  return .literal kind (← take).text

/-- A call, a name, an expression in parentheses or a literal. -/
def primary (inner : Parser Expr) (bound : Nat) : Parser Expr := do
  let c ← get
  match c.tag with
  | .name =>
    if c.nextTag = .lparen then
      let (name, args) ← callee inner bound
      return .call name args
    else return .name (← take).text
  | .lparen =>
    let _ ← take
    let e ← inner
    let _ ← expect .rparen
    return .paren e
  | .boolean => literal .boolean
  | .number => literal .number
  | .string => literal .string
  | .nilKw => literal .nil
  | _ => unexpected

/-- Prefix operators and a primary. -/
def unary (inner : Parser Expr) (bound : Nat) : Parser Expr := do
  let ops ← unaryOps bound
  return .unary ops (← primary inner bound)

/-- All layers, around an expression in parentheses or an argument. -/
def layers (inner : Parser Expr) (bound : Nat) : Parser Expr :=
  chain .disjunction bound <| chain .conjunction bound <| chain .equality bound <|
    chain .comparison bound <| chain .sum bound <| chain .product bound <| unary inner bound

/-- An expression. -/
def expr : Nat → Parser Expr
  | 0 => unexpected
  | bound + 1 => layers (expr bound) bound

/-! ## Statements -/

/-- Parameters after the first. -/
def moreParams : Nat → Parser (List String)
  | 0 => return []
  | bound + 1 => do
    if (← get).tag = .rparen then return []
    else
      let _ ← expect .comma
      let p ← takeName
      return p :: (← moreParams bound)

/-- The parameters of a function, without the parentheses. -/
def params (bound : Nat) : Parser (List String) := do
  if (← get).tag = .rparen then return []
  else
    let p ← takeName
    return p :: (← moreParams bound)

/-- A condition with one or two branches. -/
def cond (block : Parser (List Stmt)) (bound : Nat) : Parser Stmt := do
  let _ ← expect .ifKw
  let test ← expr bound
  let _ ← expect .thenKw
  let thenBlock ← block
  let elseBlock ←
    if (← get).tag = .endKw then pure []
    else do
      let _ ← expect .elseKw
      block
  let _ ← expect .endKw
  return .cond test thenBlock elseBlock

/-- A loop. -/
def loop (block : Parser (List Stmt)) (bound : Nat) : Parser Stmt := do
  let _ ← expect .whileKw
  let test ← expr bound
  let _ ← expect .doKw
  let body ← block
  let _ ← expect .endKw
  return .loop test body

/-- A return. A name followed by `=` is not its value but the next statement. -/
def ret (bound : Nat) : Parser Stmt := do
  let _ ← expect .returnKw
  let c ← get
  if c.tag.startsExpression ∧ (c.tag ≠ .name ∨ c.nextTag ≠ .assign) then
    return .ret (some (← expr bound))
  else return .ret none

/-- An assignment. -/
def assign (bound : Nat) : Parser Stmt := do
  let name ← takeName
  let _ ← expect .assign
  return .assign name (← expr bound)

/-- A function. Its body gets a return without value at the end. -/
def function (block : Parser (List Stmt)) (bound : Nat) : Parser Stmt := do
  let _ ← expect .functionKw
  let name ← takeName
  let _ ← expect .lparen
  let ps ← params bound
  let _ ← expect .rparen
  let body ← block
  let _ ← expect .endKw
  return .function name ps (body ++ [.ret none])

/-- A statement, given how to read the blocks in it. -/
def statement (block : Parser (List Stmt)) (bound : Nat) : Parser Stmt := do
  let c ← get
  match c.tag with
  | .ifKw => cond block bound
  | .whileKw => loop block bound
  | .returnKw => ret bound
  | .breakKw =>
    let _ ← take
    return .leave
  | .functionKw => function block bound
  | .name =>
    if c.nextTag = .lparen then
      let (name, args) ← callee (expr bound) bound
      return .call name args
    else assign bound
  | _ => unexpected

/-- Statements up to the first token that begins none. -/
def block : Nat → Parser (List Stmt)
  | 0 => return []
  | bound + 1 => do
    if (← get).tag.startsStatement then
      let s ← statement (block bound) bound
      return s :: (← block bound)
    else return []

/-! ## Entry points -/

/-- An expression at the cursor. -/
def expression : Parser Expr := do
  expr ((← get).upcoming.length + 1)

/-- A whole program, up to an end mark. -/
def program : Parser (List Stmt) := do
  let stmts ← block ((← get).upcoming.length + 1)
  let _ ← expect .eof
  return stmts

end Parser

/-- The program that a list of tokens spells. -/
def parse (tokens : List Token) : Except ParseError (List Stmt) :=
  match Parser.program (Cursor.ofTokens tokens) with
  | .ok stmts _ => .ok stmts
  | .error e _ => .error e

end Scriptlet
