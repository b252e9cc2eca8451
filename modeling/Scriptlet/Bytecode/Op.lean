import Scriptlet.Syntax.Operator
import Scriptlet.Text.Quoted
import Scriptlet.Value

/-!
# Operations of the stack machine

A binary operation takes its left operand from the top of the stack and its right operand from below it.
-/

namespace Scriptlet

/-- Operations of the stack machine. -/
inductive Op where
  | binary (op : BinaryOp)
  | unary (op : UnaryOp)
  /-- Pushes what a slot holds. -/
  | pushSlot (slot : Nat)
  /-- Pushes a literal. -/
  | push (value : Value)
  | pop
  /-- Stores the top of the stack in the slot named below it. -/
  | store
  | jump
  | branch
  | call
  | callBuiltin
  | ret
  | halt
deriving DecidableEq

namespace Op

/-- Equality of operations, where literals compare as the language compares values. -/
def equals : Op → Op → Bool
  | push v, push w => v.equals w
  | a, b => a == b

/-- The mnemonic of a binary operation. -/
def binaryMnemonic : BinaryOp → String
  | .or => "OR"
  | .and => "AND"
  | .equal => "EQ"
  | .notEqual => "NEQ"
  | .less => "LESS"
  | .lessEq => "LESSEQ"
  | .greater => "GREATER"
  | .greaterEq => "GREATEREQ"
  | .add => "ADD"
  | .sub => "SUB"
  | .mul => "MUL"
  | .div => "DIV"
  | .rem => "DIVREM"

/-- The mnemonic of a unary operation. -/
def unaryMnemonic : UnaryOp → String
  | .plus => "UNARYPLUS"
  | .minus => "UNARYMINUS"
  | .not => "UNARYNOT"

/-- The mnemonic of an operation. -/
def mnemonic : Op → String
  | binary op => binaryMnemonic op
  | unary op => unaryMnemonic op
  | pushSlot _ => "PUSHV"
  | push _ => "PUSHL"
  | pop => "POP"
  | store => "LOAD"
  | jump => "JMP"
  | branch => "CJMP"
  | call => "CALL"
  | callBuiltin => "CALLB"
  | ret => "RETURN"
  | halt => "HAULT"

/-- The operations without an argument, in the order of their codes. -/
def simple : List Op :=
  BinaryOp.all.map binary ++ UnaryOp.all.map unary
    ++ [pop, store, jump, branch, call, callBuiltin, ret, halt]

/-- An operation in a listing; string literals are quoted. -/
def render (op : Op) : String :=
  match op with
  | pushSlot slot => s!"{op.mnemonic} {slot}"
  | push (.string s) => s!"{op.mnemonic} {Text.quoted s}"
  | push v => s!"{op.mnemonic} {v.text}"
  | _ => op.mnemonic

end Op

end Scriptlet
