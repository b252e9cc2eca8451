import Scriptlet.Token.Basic

/-!
# Operators

Binary operators are grouped in layers, from the loosest to the tightest binding; unary operators bind tighter
than all of them.
-/

namespace Scriptlet

/-- Binary operators. -/
inductive BinaryOp where
  | or | and
  | equal | notEqual
  | less | lessEq | greater | greaterEq
  | add | sub | mul | div | rem
deriving DecidableEq

namespace BinaryOp

/-- All binary operators, loosest first. -/
def all : List BinaryOp :=
  [or, and, equal, notEqual, less, lessEq, greater, greaterEq, add, sub, mul, div, rem]

/-- The spelling of a binary operator. -/
def symbol : BinaryOp → String
  | or => "or"
  | and => "and"
  | equal => "=="
  | notEqual => "~="
  | less => "<"
  | lessEq => "<="
  | greater => ">"
  | greaterEq => ">="
  | add => "+"
  | sub => "-"
  | mul => "*"
  | div => "/"
  | rem => "%"

end BinaryOp

/-- Unary operators. -/
inductive UnaryOp where
  | plus | minus | not
deriving DecidableEq

namespace UnaryOp

/-- All unary operators. -/
def all : List UnaryOp := [plus, minus, not]

/-- The spelling of a unary operator. -/
def symbol : UnaryOp → String
  | plus => "+"
  | minus => "-"
  | not => "not"

/-- The unary operator that a token stands for. -/
def ofTag? : Tag → Option UnaryOp
  | .plus => some plus
  | .minus => some minus
  | .notKw => some not
  | _ => none

end UnaryOp

/-- The layers of binary operators, loosest first. -/
inductive Layer where
  | disjunction | conjunction | equality | comparison | sum | product
deriving DecidableEq

/-- The operator of a layer that a token stands for. -/
def Layer.operator? : Layer → Tag → Option BinaryOp
  | disjunction, .orKw => some .or
  | conjunction, .andKw => some .and
  | equality, .equal => some .equal
  | equality, .notEqual => some .notEqual
  | comparison, .less => some .less
  | comparison, .lessEq => some .lessEq
  | comparison, .greater => some .greater
  | comparison, .greaterEq => some .greaterEq
  | sum, .plus => some .add
  | sum, .minus => some .sub
  | product, .times => some .mul
  | product, .divide => some .div
  | product, .modulo => some .rem
  | _, _ => none

end Scriptlet
