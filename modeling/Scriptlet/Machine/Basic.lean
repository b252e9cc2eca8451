import Scriptlet.Bytecode.Op
import Scriptlet.Machine.Arithmetic
import Scriptlet.Machine.Builtin
import Scriptlet.Machine.Frame

/-!
# The stack machine

A machine runs operations on the innermost of its frames. An operation works on that frame alone and tells what is to
happen next; entering and leaving functions and calling builtins is done by the machine.

The frame at the root is never left: a return there ends the run.
-/

namespace Scriptlet

/-- Whether a machine can go on. -/
inductive Status where
  | running | halted | faulted
deriving DecidableEq

/-- A machine: its program, how many frames it may have, the address of the next operation, the innermost frame, the
frames of the callers, nearest first, and its console, which may be any streams. -/
structure Machine (σ : Type) where
  ops : Array Op
  limit : Nat
  ip : Nat
  frame : Frame
  callers : List Frame
  console : σ
  status : Status

/-- How a run ends: with an error, with the value returned at the root, or without a value. -/
abbrev Outcome := Except RuntimeError (Option Value)

namespace Machine

/-- How many frames a machine may have if nothing else is said. -/
def defaultLimit : Nat := 1000

variable {σ : Type}

/-- A machine at the start of a program. -/
def ofOps (ops : List Op) (limit : Nat) (console : σ) : Machine σ :=
  { ops := ops.toArray, limit, ip := 0, frame := .ofStack [], callers := [], console,
    status := .running }

/-- The number of frames. -/
def depth (m : Machine σ) : Nat :=
  m.callers.length + 1

/-! ## Operations -/

/-- What follows an operation. -/
inductive Action where
  | next
  | jump (address : Nat)
  | enter (address : Nat) (callee : Frame)
  | leave (address : Nat) (value : Value) (caller : Frame) (callers : List Frame)
  | halt (result : Option Value)
  | invoke (builtin : Builtin) (args : List Value) (destination : Option Value)

/-- A binary operation. One that needs numbers looks at its left operand before it takes the right one. -/
def binary (op : BinaryOp) : FrameM Unit := do
  let v ← FrameM.pop
  if op.numeric then
    let _ ← FrameM.lift v.asNumber
  let w ← FrameM.pop
  FrameM.push (← FrameM.lift (op.apply v w))

/-- A unary operation. -/
def unary (op : UnaryOp) : FrameM Unit := do
  let v ← FrameM.pop
  FrameM.push (← FrameM.lift (op.apply v))

/-- Binds arguments in a frame, the later ones over the earlier ones. -/
def bindArguments (callee : Frame) : List (Value × Value) → Except RuntimeError Frame
  | [] => .ok callee
  | (slot, v) :: rest =>
    match slot.toIndex? with
    | some n => bindArguments (callee.bind n v) rest
    | none => .error (.invalidSlot slot.text)

/-- A call of a function of the program. The new frame's stack holds the address to return to. -/
def call (m : Machine σ) : FrameM Action := do
  if m.limit ≤ m.depth then throw (.stackOverflow m.limit)
  let argc ← FrameM.takeIndex .invalidOperand
  let address ← FrameM.takeAddress m.ops.size
  let destination ← FrameM.takeDestination
  let args ← FrameM.takePairs argc []
  let callee ← FrameM.lift (bindArguments (.ofStack [.ofIndex (m.ip + 1)]) args)
  FrameM.putBack destination
  return .enter address callee

/-- A call of a builtin. -/
def callBuiltin : FrameM Action := do
  let argc ← FrameM.takeIndex .invalidOperand
  let name ← FrameM.pop
  match name with
  | .string name =>
    let destination ← FrameM.takeDestination
    let args ← FrameM.takePairs argc []
    match Builtin.ofName? name with
    | some b => return .invoke b (args.map (·.2)) destination
    | none => throw (.unknownBuiltin name)
  | other => throw (.invalidOperand other.text)

/-- A return. -/
def ret (m : Machine σ) : FrameM Action := do
  let v ← FrameM.pop
  match m.callers with
  | [] => return .halt (some v)
  | caller :: callers =>
    let address ← FrameM.takeIndex .invalidAddress
    return .leave address v caller callers

/-- What an operation does to the innermost frame, and what follows. -/
def exec (m : Machine σ) : Op → FrameM Action
  | .binary op => do
    binary op
    return .next
  | .unary op => do
    unary op
    return .next
  | .pushSlot slot => do
    FrameM.push ((← get).get slot)
    return .next
  | .push v => do
    FrameM.push v
    return .next
  | .pop => do
    let _ ← FrameM.pop
    return .next
  | .store => do
    let v ← FrameM.pop
    let slot ← FrameM.takeIndex .invalidSlot
    modify fun f => f.bind slot v
    return .next
  | .jump => do
    return .jump (← FrameM.takeAddress m.ops.size)
  | .branch => do
    let v ← FrameM.pop
    let address ← FrameM.takeAddress m.ops.size
    return if v.truthy then .jump address else .next
  | .call => m.call
  | .callBuiltin => callBuiltin
  | .ret => m.ret
  | .halt => return .halt none

/-! ## Runs -/

/-- A step of a run: the machine goes on, or the run ends. -/
inductive Step (σ : Type) where
  | more (m : Machine σ)
  | done (m : Machine σ) (outcome : Outcome)

/-- Stops a machine. -/
def stop (m : Machine σ) (status : Status) (outcome : Outcome) : Step σ :=
  .done { m with status } outcome

variable [Streams σ]

/-- Carries out what follows an operation that left the given frame. -/
def perform (m : Machine σ) (frame : Frame) : Action → Step σ
  | .next => .more { m with frame, ip := m.ip + 1 }
  | .jump address => .more { m with frame, ip := address }
  | .enter address callee =>
    .more { m with frame := callee, callers := frame :: m.callers, ip := address }
  | .leave address v caller callers =>
    .more { m with frame := caller.push v, callers, ip := address }
  | .halt result => stop { m with frame } .halted (.ok result)
  | .invoke b args destination =>
    match b.run args m.console with
    | .ok v console =>
      let frame := match destination with
        | some d => frame.push d
        | none => frame
      .more { m with frame := frame.push v, console, ip := m.ip + 1 }
    | .error e console => stop { m with frame, console } .faulted (.error (.console e))

/-- Runs the operation at the current address. A run past the end of the program ends without a value. -/
def step (m : Machine σ) : Step σ :=
  match m.ops[m.ip]? with
  | none => stop m .halted (.ok none)
  | some op =>
    match m.exec op m.frame with
    | .ok action frame => m.perform frame action
    | .error e frame => stop { m with frame } .faulted (.error e)

/-- Runs a machine until it stops, for at most `fuel` steps; `none` if that is not enough. A machine that has stopped
stays as it is and gives no value. -/
def run : Nat → Machine σ → Option (Machine σ × Outcome)
  | 0, _ => none
  | fuel + 1, m =>
    if m.status = .running then
      match m.step with
      | .more m' => run fuel m'
      | .done m' outcome => some (m', outcome)
    else some (m, .ok none)

end Machine

end Scriptlet
