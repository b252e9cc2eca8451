import Scriptlet.Machine.Error
import Scriptlet.Syntax.Operator

/-!
# What operators compute

The meaning of the operators on values. Both operands of a binary operator are always there: `or` and `and` choose one of
them.
-/

namespace Scriptlet

/-- The number that a value stands for, or the error that it stands for none. -/
def Value.asNumber (v : Value) : Except RuntimeError Number :=
  match v.toNumber? with
  | some x => .ok x
  | none => .error (.notANumber v)

/-- A computation on the numbers that two values stand for, the left one looked at first. -/
def Value.onNumbers (v w : Value) (f : Number → Number → Except RuntimeError Value) :
    Except RuntimeError Value := do
  let x ← v.asNumber
  let y ← w.asNumber
  f x y

namespace BinaryOp

/-- Operators that are defined on numbers only. -/
def numeric : BinaryOp → Bool
  | less | lessEq | greater | greaterEq | sub | mul | div | rem => true
  | or | and | equal | notEqual | add => false

/-- The value of a binary operator. Two strings add to their concatenation. -/
def apply (op : BinaryOp) (v w : Value) : Except RuntimeError Value :=
  match op with
  | or => .ok (if v.truthy then v else w)
  | and => .ok (if v.truthy then w else v)
  | equal => .ok (.boolean (v.equals w))
  | notEqual => .ok (.boolean (!v.equals w))
  | less => v.onNumbers w fun x y => .ok (.boolean (x < y))
  | lessEq => v.onNumbers w fun x y => .ok (.boolean (x ≤ y))
  | greater => v.onNumbers w fun x y => .ok (.boolean (y < x))
  | greaterEq => v.onNumbers w fun x y => .ok (.boolean (y ≤ x))
  | add =>
    match v, w with
    | .string s, .string t => .ok (.string (s ++ t))
    | v, w => v.onNumbers w fun x y => .ok (.number (x + y))
  | sub => v.onNumbers w fun x y => .ok (.number (x - y))
  | mul => v.onNumbers w fun x y => .ok (.number (x * y))
  | div => v.onNumbers w fun x y =>
    if y == 0 then .error .divisionByZero else .ok (.number (x / y))
  | rem => v.onNumbers w fun x y =>
    if y == 0 then .error .divisionByZero else .ok (.number (Number.rem x y))

end BinaryOp

/-- The value of a unary operator. -/
def UnaryOp.apply (op : UnaryOp) (v : Value) : Except RuntimeError Value :=
  match op with
  | plus => return .number (← v.asNumber)
  | minus => return .number (-(← v.asNumber))
  | not => .ok (.boolean (!v.truthy))

end Scriptlet
