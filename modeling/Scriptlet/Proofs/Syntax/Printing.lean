import Mathlib.Tactic
import Scriptlet.Syntax.Basic

/-!
# Printing programs

The tokens of a program, and the programs that tokens can spell. Parentheses stand only where a tree has them, an `else`
only before a branch that is not empty, and the return that ends every function body is left out.
-/

namespace Scriptlet

/-! ## Operators and literals -/

/-- The token of a binary operator. -/
def BinaryOp.tag : BinaryOp → Tag
  | or => .orKw
  | and => .andKw
  | equal => .equal
  | notEqual => .notEqual
  | less => .less
  | lessEq => .lessEq
  | greater => .greater
  | greaterEq => .greaterEq
  | add => .plus
  | sub => .minus
  | mul => .times
  | div => .divide
  | rem => .modulo

/-- The layer of a binary operator. -/
def BinaryOp.layer : BinaryOp → Layer
  | or => .disjunction
  | and => .conjunction
  | equal | notEqual => .equality
  | less | lessEq | greater | greaterEq => .comparison
  | add | sub => .sum
  | mul | div | rem => .product

theorem Layer.operator?_eq_some_iff {layer : Layer} {tag : Tag} {op : BinaryOp} :
    layer.operator? tag = some op ↔ op.tag = tag ∧ op.layer = layer := by
  constructor
  · intro h
    unfold Layer.operator? at h
    split at h <;> cases h <;> exact ⟨rfl, rfl⟩
  · rintro ⟨rfl, rfl⟩
    cases op <;> rfl

/-- The token of a unary operator. -/
def UnaryOp.tag : UnaryOp → Tag
  | plus => .plus
  | minus => .minus
  | not => .notKw

theorem UnaryOp.ofTag?_eq_some_iff {tag : Tag} {op : UnaryOp} : ofTag? tag = some op ↔ op.tag = tag := by
  constructor
  · intro h
    unfold ofTag? at h
    split at h <;> cases h <;> rfl
  · rintro rfl
    cases op <;> rfl

/-- The token of a literal. -/
def LiteralKind.tag : LiteralKind → Tag
  | boolean => .boolean
  | number => .number
  | string => .string
  | nil => .nilKw

/-! ## Levels of expressions -/

/-- Where an expression can stand: as a chain of a layer, after nothing but prefix operators, or as a primary. -/
inductive Level where
  | layer (layer : Layer)
  | prefixes
  | primary
deriving DecidableEq

/-- The level of the operands of a layer. -/
def Layer.operands : Layer → Level
  | disjunction => .layer .conjunction
  | conjunction => .layer .equality
  | equality => .layer .comparison
  | comparison => .layer .sum
  | sum => .layer .product
  | product => .prefixes

/-- How tightly a layer binds. -/
def Layer.rank : Layer → Nat
  | disjunction => 0
  | conjunction => 1
  | equality => 2
  | comparison => 3
  | sum => 4
  | product => 5

/-- How tightly a level binds. -/
def Level.rank : Level → Nat
  | layer l => l.rank
  | prefixes => 6
  | primary => 7

theorem Layer.rank_operands (layer : Layer) : layer.operands.rank = layer.rank + 1 := by
  cases layer <;> rfl

/-- The level of a whole expression. -/
def Level.whole : Level :=
  .layer .disjunction

namespace Expr

mutual

/-- Whether an expression can be read at a level: each chain has an operand, one operator of its layer between any two
neighbours, and operands of the next level. -/
def wellFormed (level : Level) : Expr → Bool
  | .chain layer operands ops => level == .layer layer && chainWellFormed layer operands ops
  | .unary _ operand => level == .prefixes && wellFormed .primary operand
  | .name _ => level == .primary
  | .literal _ _ => level == .primary
  | .paren inner => level == .primary && wellFormed .whole inner
  | .call _ args => level == .primary && argsWellFormed args

/-- Whether these are the operands and operators of a chain. -/
def chainWellFormed (layer : Layer) : List Expr → List BinaryOp → Bool
  | [], _ => false
  | e :: es, ops => wellFormed layer.operands e && tailWellFormed layer es ops

/-- Whether these are the operators of a chain, each with the operand after it. -/
def tailWellFormed (layer : Layer) : List Expr → List BinaryOp → Bool
  | [], [] => true
  | e :: es, op :: ops => op.layer == layer && wellFormed layer.operands e && tailWellFormed layer es ops
  | _, _ => false

/-- Whether arguments can be read. -/
def argsWellFormed : List Expr → Bool
  | [] => true
  | e :: es => wellFormed .whole e && argsWellFormed es

end

end Expr

/-! ## Tokens -/

namespace Token

/-- A token with a text of its own. -/
def ofText (tag : Tag) (text : String) : Token :=
  ⟨tag, .start, text⟩

/-- A token that is known by its tag. -/
def mark (tag : Tag) : Token :=
  ⟨tag, .start, tag.label⟩

@[simp]
theorem tag_ofText (tag : Tag) (text : String) : (ofText tag text).tag = tag :=
  rfl

@[simp]
theorem tag_mark (tag : Tag) : (mark tag).tag = tag :=
  rfl

/-- What a program depends on: the tag, and the text of a name or a literal. -/
def skeleton (t : Token) : Tag × Option String :=
  (t.tag, match t.tag with
    | .name | .boolean | .number | .string | .nilKw => some t.text
    | _ => none)

end Token

open Token (ofText mark)

namespace Expr

mutual

/-- The tokens of an expression. -/
def tokens : Expr → List Token
  | .chain _ operands ops => chainTokens operands ops
  | .unary ops operand => ops.map (mark ·.tag) ++ tokens operand
  | .name id => [ofText .name id]
  | .literal kind text => [ofText kind.tag text]
  | .paren inner => mark .lparen :: (tokens inner ++ [mark .rparen])
  | .call callee args => ofText .name callee :: mark .lparen :: (argTokens args ++ [mark .rparen])

/-- The tokens of a chain. -/
def chainTokens : List Expr → List BinaryOp → List Token
  | [], _ => []
  | e :: es, ops => tokens e ++ tailTokens es ops

/-- The tokens of operators, each with the operand after it. -/
def tailTokens : List Expr → List BinaryOp → List Token
  | e :: es, op :: ops => mark op.tag :: (tokens e ++ tailTokens es ops)
  | _, _ => []

/-- The tokens of arguments. -/
def argTokens : List Expr → List Token
  | [] => []
  | e :: es => tokens e ++ moreArgTokens es

/-- The tokens of arguments after the first. -/
def moreArgTokens : List Expr → List Token
  | [] => []
  | e :: es => mark .comma :: (tokens e ++ moreArgTokens es)

end

end Expr

/-- The tokens of parameters after the first. -/
def moreParamTokens : List String → List Token
  | [] => []
  | p :: ps => mark .comma :: ofText .name p :: moreParamTokens ps

/-- The tokens of parameters. -/
def paramTokens : List String → List Token
  | [] => []
  | p :: ps => ofText .name p :: moreParamTokens ps

namespace Stmt

/-- A return without value. -/
def isBareReturn : Stmt → Bool
  | .ret none => true
  | _ => false

/-- A call as a statement. -/
def isCall : Stmt → Bool
  | .call _ _ => true
  | _ => false

mutual

/-- Whether a statement can be read. A function body ends with a return without value. -/
def wellFormed : Stmt → Bool
  | .cond test thenBlock elseBlock => test.wellFormed .whole && blockWellFormed thenBlock && blockWellFormed elseBlock
  | .loop test body => test.wellFormed .whole && blockWellFormed body
  | .ret none => true
  | .ret (some value) => value.wellFormed .whole
  | .leave => true
  | .assign _ value => value.wellFormed .whole
  | .function _ _ body => body.getLast?.any isBareReturn && blockWellFormed body
  | .call _ args => Expr.argsWellFormed args

/-- Whether statements can be read one after the other. A call after a return without value would be its value. -/
def blockWellFormed : List Stmt → Bool
  | [] => true
  | s :: rest => wellFormed s && !(s.isBareReturn && rest.head?.any isCall) && blockWellFormed rest

end

mutual

/-- The tokens of a statement. -/
def tokens : Stmt → List Token
  | .cond test thenBlock elseBlock =>
    mark .ifKw :: (test.tokens ++ mark .thenKw :: (blockTokens thenBlock
      ++ ((if elseBlock.isEmpty then [] else mark .elseKw :: blockTokens elseBlock) ++ [mark .endKw])))
  | .loop test body => mark .whileKw :: (test.tokens ++ mark .doKw :: (blockTokens body ++ [mark .endKw]))
  | .ret none => [mark .returnKw]
  | .ret (some value) => mark .returnKw :: value.tokens
  | .leave => [mark .breakKw]
  | .assign name value => ofText .name name :: mark .assign :: value.tokens
  | .function name params body =>
    mark .functionKw :: ofText .name name :: mark .lparen
      :: (paramTokens params ++ mark .rparen :: (bodyTokens body ++ [mark .endKw]))
  | .call callee args => ofText .name callee :: mark .lparen :: (Expr.argTokens args ++ [mark .rparen])

/-- The tokens of statements. -/
def blockTokens : List Stmt → List Token
  | [] => []
  | s :: rest => tokens s ++ blockTokens rest

/-- The tokens of statements without the last one. -/
def bodyTokens : List Stmt → List Token
  | [] => []
  | [_] => []
  | s :: next :: rest => tokens s ++ bodyTokens (next :: rest)

end

theorem bodyTokens_concat (body : List Stmt) (last : Stmt) : bodyTokens (body ++ [last]) = blockTokens body := by
  induction body with
  | nil => rfl
  | cons s body ih =>
      cases body with
      | nil => rfl
      | cons next rest =>
          rw [List.cons_append, List.cons_append, bodyTokens, blockTokens, ← ih]
          rfl

end Stmt

/-- The tokens of a program. -/
def unparse (program : List Stmt) : List Token :=
  Stmt.blockTokens program

/-- Removes each `else` that is directly followed by an `end`. -/
def dropEmptyElse : List Token → List Token
  | [] => []
  | t :: rest =>
    if t.tag = .elseKw ∧ rest.head?.any (·.tag = .endKw) then dropEmptyElse rest else t :: dropEmptyElse rest

end Scriptlet
