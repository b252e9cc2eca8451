import Scriptlet.Bytecode.Lower

/-!
# Assemblers

An assembler lowers code in one pass and can be used again for other code. It writes a placeholder for every address,
notes where the placeholder stands, and puts the address there when all instructions are written and their first
operations known. It numbers the slots beforehand.
-/

namespace Scriptlet.Bytecode

open Ir (Code Instruction CallSite Rhs)

/-- Why code cannot be assembled. -/
inductive AssemblyError where
  | unresolvedTarget (cause : UnresolvedTarget)
  | unknownSlot (name : String)
deriving DecidableEq

/-- What is shown to users. -/
def AssemblyError.message : AssemblyError → String
  | unresolvedTarget cause => cause.message
  | unknownSlot name => s!"no slot was numbered for '{name}'"

/-- What an assembler holds: the operations written so far, the slots of names, and the placeholders, each with the
instruction whose address goes there. -/
structure Assembler where
  ops : List Op := []
  slots : List (String × Nat) := []
  placeholders : List (Nat × Nat) := []
deriving DecidableEq

/-- What an assembler does. An error leaves it as it is. -/
abbrev Assembly := EStateM AssemblyError Assembler

namespace Assembly

/-! ## Operands -/

/-- Writes an operation. -/
def emit (op : Op) : Assembly Unit :=
  modify fun a => { a with ops := a.ops ++ [op] }

/-- Writes a placeholder for the address of an instruction. -/
def emitAddress (target : Nat) : Assembly Unit := do
  modify fun a => { a with placeholders := a.placeholders ++ [(a.ops.length, target)] }
  emit (.push .nil)

/-- Pushes the slot of a bound name. -/
def emitSlot (name : String) : Assembly Unit := do
  match (← get).slots.lookup name with
  | some slot => emit (.push (.ofIndex slot))
  | none => throw (.unknownSlot name)

/-- Pushes the value of an operand. A variable that is bound nowhere is nil. -/
def emitOperand (text : String) : Assembly Unit := do
  match unquoted? text with
  | some s => emit (.push (.string s))
  | none =>
    if isVariable text then
      match (← get).slots.lookup text with
      | some slot => emit (.pushSlot slot)
      | none => emit (.push .nil)
    else emit (.push (.ofLiteral text))

/-! ## Instructions -/

/-- A call of code in the program or of a builtin. -/
def emitCall (site : CallSite) : Assembly Unit := do
  match site.target with
  | some t =>
    emitAddress t
    emit (.push (.ofIndex site.argc))
    emit .call
  | none =>
    emit (.push (.string site.callee))
    emit (.push (.ofIndex site.argc))
    emit .callBuiltin

/-- What an assignment computes. -/
def emitRhs : Rhs → Assembly Unit
  | .single x => emitOperand x
  | .unary op x => do
    emitOperand x
    emit (.unary op)
  | .binary op x y => do
    emitOperand y
    emitOperand x
    emit (.binary op)
  | .call site => do
    emit (.push (.ofIndex 1))
    emitCall site

/-- Writes the operations of an instruction. -/
def emitInstruction : Instruction → Assembly Unit
  | .goto t => do
    emitAddress t
    emit .jump
  | .branch x t => do
    emitAddress t
    emitOperand x
    emit .branch
  | .assign name rhs => do
    emitSlot name
    emitRhs rhs
    emit .store
  | .ret x => do
    emitOperand x
    emit .ret
  | .param x (some name) => do
    emitSlot name
    emitOperand x
  | .param x none => do
    emit (.push noSlot)
    emitOperand x
  | .call site => do
    emit (.push (.ofIndex 0))
    emitCall site
    emit .pop
  | .stop => emit .halt
  | .blank => pure ()

/-! ## Code -/

/-- Gives a name the next slot, unless it has one. -/
def number (slots : List (String × Nat)) (name : String) : List (String × Nat) :=
  if (slots.lookup name).isSome then slots else slots ++ [(name, slots.length)]

/-- Numbers the names that code binds, in the order of their first binding. -/
def numberSlots (code : Code) : Assembly Unit :=
  modify fun a => { a with slots := (code.filterMap Instruction.binds?).foldl number [] }

/-- Writes the operations of all instructions. Gives the first operation of each. -/
def emitCode : Code → Assembly (List Nat)
  | [] => return []
  | i :: rest => do
    let first := (← get).ops.length
    emitInstruction i
    return first :: (← emitCode rest)

/-- Puts addresses in place of placeholders, one after the other. -/
def resolve (firsts : List Nat) : List (Nat × Nat) → Assembly Unit
  | [] => return ()
  | (op, target) :: rest =>
    match firsts[target]? with
    | some address => do
      modify fun a => { a with ops := a.ops.set op (.push (.ofIndex address)) }
      resolve firsts rest
    | none => throw (.unresolvedTarget ⟨op, target⟩)

/-- Assembles code. What was assembled before is forgotten, and the operations are handed over. -/
def assemble (code : Code) : Assembly (List Op) := do
  modify fun a => { a with ops := [], placeholders := [] }
  numberSlots code
  let firsts ← emitCode code
  let placeholders := (← get).placeholders
  modify fun a => { a with placeholders := [] }
  resolve firsts placeholders
  let ops := (← get).ops
  modify fun a => { a with ops := [] }
  return ops

end Assembly

/-- Assembles code. Gives the operations or the error, and the assembler after it. -/
def Assembler.assemble (a : Assembler) (code : Code) : Except AssemblyError (List Op) × Assembler :=
  match Assembly.assemble code a with
  | .ok ops a' => (.ok ops, a')
  | .error e a' => (.error e, a')

end Scriptlet.Bytecode
