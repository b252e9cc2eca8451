import Scriptlet.Syntax.Operator

/-!
# Syntax trees

An expression is a chain of operands for each layer of operators, down to prefix operators and a primary. Trees read
from a text have one operator between any two neighbours of a chain; trees made by hand may have fewer or more.
-/

namespace Scriptlet

/-- The kinds of literals. -/
inductive LiteralKind where
  | boolean | number | string | nil
deriving DecidableEq

/-- Expressions. -/
inductive Expr where
  /-- Operands of one layer, joined by operators. -/
  | chain (layer : Layer) (operands : List Expr) (ops : List BinaryOp)
  /-- Operators written before a primary, in the order of writing. -/
  | unary (ops : List UnaryOp) (operand : Expr)
  | name (id : String)
  | literal (kind : LiteralKind) (text : String)
  | paren (inner : Expr)
  | call (callee : String) (args : List Expr)

/-- The chain of a layer with a single operator, which stands between all neighbours. -/
def Expr.uniform (layer : Layer) (op : BinaryOp) (operands : List Expr) : Expr :=
  .chain layer operands (List.replicate (operands.length - 1) op)

/-- Statements. A function body that was read from a text ends with a return without value. -/
inductive Stmt where
  | cond (test : Expr) (thenBlock elseBlock : List Stmt)
  | loop (test : Expr) (body : List Stmt)
  | ret (value : Option Expr)
  | leave
  | assign (name : String) (value : Expr)
  | function (name : String) (params : List String) (body : List Stmt)
  | call (callee : String) (args : List Expr)

end Scriptlet
