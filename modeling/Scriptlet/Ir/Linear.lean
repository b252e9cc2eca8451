import Scriptlet.Ir.Basic

/-!
# Linear code

Code is linear when it has no blanks and every target is an instruction of it. Linearizing drops the blanks and lets
each target name the same place as before: that of the first instruction at or after it which is kept.
-/

namespace Scriptlet.Ir

/-- Why code is not linear. -/
inductive LinearError where
  | danglingTarget (id target : Nat)
  | blankRemains (id : Nat)
deriving DecidableEq

/-- What is shown to users. -/
def LinearError.message : LinearError → String
  | danglingTarget id target => s!"instruction {id} targets {target}, which is not a live instruction"
  | blankRemains id => s!"a blank instruction survived linearization at {id}"

namespace Code

/-- Checks the instructions from `id` on against the number of all instructions. -/
def validateFrom (size id : Nat) : Code → Except LinearError Unit
  | [] => .ok ()
  | i :: rest =>
    if i.isBlank then .error (.blankRemains id)
    else match i.target? with
      | some t => if t < size then validateFrom size (id + 1) rest else .error (.danglingTarget id t)
      | none => validateFrom size (id + 1) rest

/-- Checks that code is linear; the first instruction at fault is reported. -/
def validate (code : Code) : Except LinearError Unit :=
  validateFrom code.length 0 code

/-- How many instructions before a place are not blank. -/
def liveBefore (code : Code) (place : Nat) : Nat :=
  (code.take place).countP fun i => !i.isBlank

/-- Drops the blanks of the instructions from `id` on, counted without blanks, and moves their targets to
places in `code` without its blanks. -/
def relocateFrom (code : Code) (id : Nat) : Code → Except LinearError Code
  | [] => .ok []
  | i :: rest =>
    if i.isBlank then relocateFrom code id rest
    else match i.target? with
      | some t =>
        if t < code.length then
          return i.mapTarget (liveBefore code) :: (← relocateFrom code (id + 1) rest)
        else .error (.danglingTarget id t)
      | none => return i :: (← relocateFrom code (id + 1) rest)

/-- Makes code linear. -/
def linearize (code : Code) : Except LinearError Code := do
  let linear ← relocateFrom code 0 code
  linear.validate
  return linear

end Code

end Scriptlet.Ir
