import Scriptlet.Bytecode.Op
import Scriptlet.Ir.Basic
import Scriptlet.Text.Word

/-!
# Lowering code to operations

Each instruction becomes a fixed number of operations, so the address of every instruction is known before any is
lowered. Variables get slots: the names that the code binds are numbered in the order of their first binding.
-/

namespace Scriptlet.Bytecode

open Ir (Code Instruction CallSite)

/-! ## Operands -/

/-- Operand texts that name a variable: a letter or underscore, then letters, numerals and underscores, but no
literal. -/
def isVariable (text : String) : Bool :=
  (match text.toList with
    | [] => false
    | c :: cs =>
      (c == '_' || (Text.isAlphanumeric c && !Text.isNumeral c))
        && cs.all fun c => c == '_' || Text.isAlphanumeric c)
    && text != "true" && text != "false" && text != "nil"

/-- The text between the quotes of a quoted operand. -/
def unquoted? (text : String) : Option String :=
  match text.toList with
  | '"' :: rest => if rest.getLast? = some '"' then some (String.ofList rest.dropLast) else none
  | _ => none

/-- The names that code binds, in the order of their slots. -/
def slotNames (code : Code) : List String :=
  (code.filterMap Instruction.binds?).eraseDups

/-- Pushes the value of an operand. A variable that is bound nowhere is nil. -/
def operandOp (slots : List String) (text : String) : Op :=
  match unquoted? text with
  | some s => .push (.string s)
  | none =>
    if isVariable text then
      match slots.idxOf? text with
      | some slot => .pushSlot slot
      | none => .push .nil
    else .push (.ofLiteral text)

/-! ## Instructions -/

/-- Pushes the slot of a bound name. -/
def slotOp (slots : List String) (name : String) : Op :=
  .push (.ofIndex (slots.idxOf name))

/-- Stands in place of a slot where a parameter has none: minus one. -/
def noSlot : Value :=
  .number (.ofRank true (Magnitude.nearestRank 1 1))

/-- A call of code in the program or of a builtin, after the flag that tells whether a slot for the result lies
below. -/
def callOps (address : Nat → Nat) (site : CallSite) : List Op :=
  match site.target with
  | some t => [.push (.ofIndex (address t)), .push (.ofIndex site.argc), .call]
  | none => [.push (.string site.callee), .push (.ofIndex site.argc), .callBuiltin]

/-- The operations of an instruction, given the slots and the addresses of all instructions. -/
def instructionOps (slots : List String) (address : Nat → Nat) : Instruction → List Op
  | .goto t => [.push (.ofIndex (address t)), .jump]
  | .branch x t => [.push (.ofIndex (address t)), operandOp slots x, .branch]
  | .assign name rhs =>
    let value := match rhs with
      | .single x => [operandOp slots x]
      | .unary op x => [operandOp slots x, .unary op]
      | .binary op x y => [operandOp slots y, operandOp slots x, .binary op]
      | .call site => .push (.ofIndex 1) :: callOps address site
    slotOp slots name :: value ++ [.store]
  | .ret x => [operandOp slots x, .ret]
  | .param x (some name) => [slotOp slots name, operandOp slots x]
  | .param x none => [.push noSlot, operandOp slots x]
  | .call site => .push (.ofIndex 0) :: callOps address site ++ [.pop]
  | .stop => [.halt]
  | .blank => []

/-- The number of operations of an instruction. -/
def width : Instruction → Nat
  | .goto _ => 2
  | .branch _ _ => 3
  | .assign _ (.single _) => 3
  | .assign _ (.unary _ _) => 4
  | .assign _ (.binary _ _ _) => 5
  | .assign _ (.call _) => 6
  | .ret _ => 2
  | .param _ _ => 2
  | .call _ => 5
  | .stop => 1
  | .blank => 0

/-- The operation of an instruction that pushes its target's address. -/
def addressIndex : Instruction → Nat
  | .assign _ _ => 2
  | .call _ => 1
  | _ => 0

/-- Every instruction has the operations that its width announces. -/
@[simp]
theorem length_instructionOps (slots : List String) (address : Nat → Nat) (i : Instruction) :
    (instructionOps slots address i).length = width i := by
  cases i with
  | assign name rhs =>
    cases rhs with
    | call site => cases h : site.target <;> simp [instructionOps, callOps, width, h]
    | _ => simp [instructionOps, width]
  | param x name => cases name <;> simp [instructionOps, width]
  | call site => cases h : site.target <;> simp [instructionOps, callOps, width, h]
  | _ => simp [instructionOps, width]

/-! ## Code -/

/-- The address of an instruction: the number of operations before it. -/
def address (code : Code) (place : Nat) : Nat :=
  ((code.take place).map width).foldr (· + ·) 0

/-- A target that is not in the code, and the operation that refers to it. -/
structure UnresolvedTarget where
  op : Nat
  target : Nat
deriving DecidableEq

/-- What is shown to users. -/
def UnresolvedTarget.message (e : UnresolvedTarget) : String :=
  s!"op {e.op} refers to IR instruction {e.target}, which does not exist"

/-- The first target that is not below `size`, among instructions whose operations start at `op`. -/
def unresolvedFrom (size op : Nat) : Code → Option UnresolvedTarget
  | [] => none
  | i :: rest =>
    match i.target? with
    | some t =>
      if t < size then unresolvedFrom size (op + width i) rest else some ⟨op + addressIndex i, t⟩
    | none => unresolvedFrom size (op + width i) rest

/-- The operations of code. -/
def lower (code : Code) : Except UnresolvedTarget (List Op) :=
  match unresolvedFrom code.length 0 code with
  | some e => .error e
  | none => .ok (code.flatMap (instructionOps (slotNames code) (address code)))

end Scriptlet.Bytecode
