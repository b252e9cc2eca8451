import Scriptlet.Machine.Error
import Std.Data.TreeMap

/-!
# Frames

The stack and the variables of one activation of a function. A slot that was never bound holds nil.
-/

namespace Scriptlet

/-- A stack, top first, and the values of slots. -/
structure Frame where
  stack : List Value
  slots : Std.TreeMap Nat Value

namespace Frame

/-- A frame with the given stack and nothing bound. -/
def ofStack (stack : List Value) : Frame :=
  ⟨stack, ∅⟩

/-- Puts a value on top of the stack. -/
def push (f : Frame) (v : Value) : Frame :=
  { f with stack := v :: f.stack }

/-- Binds a slot. -/
def bind (f : Frame) (slot : Nat) (v : Value) : Frame :=
  { f with slots := f.slots.insert slot v }

/-- What a slot holds. -/
def get (f : Frame) (slot : Nat) : Value :=
  f.slots.getD slot .nil

@[simp]
theorem stack_push (f : Frame) (v : Value) : (f.push v).stack = v :: f.stack :=
  rfl

@[simp]
theorem slots_push (f : Frame) (v : Value) : (f.push v).slots = f.slots :=
  rfl

@[simp]
theorem stack_bind (f : Frame) (slot : Nat) (v : Value) : (f.bind slot v).stack = f.stack :=
  rfl

@[simp]
theorem get_push (f : Frame) (v : Value) (slot : Nat) : (f.push v).get slot = f.get slot :=
  rfl

@[simp]
theorem get_ofStack (stack : List Value) (slot : Nat) : (ofStack stack).get slot = .nil := by
  simp [get, ofStack]

/-- A slot holds what was bound to it last. -/
theorem get_bind (f : Frame) (slot other : Nat) (v : Value) :
    (f.bind slot v).get other = if slot = other then v else f.get other := by
  simp [get, bind, Std.TreeMap.getD_insert]

end Frame

/-! ## Taking operands

These act on a frame. What was taken before a failure stays taken. -/

/-- Work on a frame. -/
abbrev FrameM := EStateM RuntimeError Frame

namespace FrameM

/-- Puts a value on top of the stack. -/
def push (v : Value) : FrameM Unit :=
  modify fun f => f.push v

/-- Takes the top of the stack. -/
def pop : FrameM Value := do
  let f ← get
  match f.stack with
  | [] => throw .stackUnderflow
  | v :: rest =>
    set { f with stack := rest }
    return v

/-- The result of a computation that does not touch the frame. -/
def lift (r : Except RuntimeError α) : FrameM α :=
  match r with
  | .ok a => return a
  | .error e => throw e

/-- Takes an index; `invalid` tells what another value is not. -/
def takeIndex (invalid : String → RuntimeError) : FrameM Nat := do
  let v ← pop
  match v.toIndex? with
  | some n => return n
  | none => throw (invalid v.text)

/-- Takes the address of one of `size` operations. -/
def takeAddress (size : Nat) : FrameM Nat := do
  let n ← takeIndex .invalidAddress
  if n < size then return n else throw (.invalidAddress (toString n))

/-- The flag which tells that no destination lies below it: the number zero. -/
def isNoDestination : Value → Bool
  | .number x => x == 0
  | _ => false

/-- Takes a flag and, if it says so, the destination below it. -/
def takeDestination : FrameM (Option Value) := do
  let flag ← pop
  if isNoDestination flag then return none else return some (← pop)

/-- Puts a destination back. -/
def putBack : Option Value → FrameM Unit
  | none => return
  | some v => push v

/-- Takes `count` pairs of a slot and a value, the value on top, and puts them before those already taken; so they
come in the order in which they were pushed. No room is set aside for them: a count beyond all memory fails like any other
that is too big, when the stack is empty. -/
def takePairs : Nat → List (Value × Value) → FrameM (List (Value × Value))
  | 0, taken => return taken
  | count + 1, taken => do
    let v ← pop
    let slot ← pop
    takePairs count ((slot, v) :: taken)

end FrameM

end Scriptlet
