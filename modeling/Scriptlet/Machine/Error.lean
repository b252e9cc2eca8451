import Scriptlet.Machine.Console
import Scriptlet.Value

/-!
# Run-time errors
-/

namespace Scriptlet

/-- Why a run fails. -/
inductive RuntimeError where
  | stackUnderflow
  | stackOverflow (limit : Nat)
  | notANumber (value : Value)
  | divisionByZero
  | unknownBuiltin (name : String)
  | invalidSlot (text : String)
  | invalidAddress (text : String)
  | invalidOperand (text : String)
  | console (cause : ConsoleError)
deriving DecidableEq

namespace RuntimeError

/-- What went wrong. -/
def reason : RuntimeError → String
  | stackUnderflow => "pop from an empty stack"
  | stackOverflow limit => s!"stack overflow ({limit} frames)"
  | notANumber v => s!"cannot convert {v.typeName} '{v.text}' to a number"
  | divisionByZero => "division by zero"
  | unknownBuiltin name => s!"unknown builtin '{name}'"
  | invalidSlot text => s!"invalid slot '{text}'"
  | invalidAddress text => s!"invalid address '{text}'"
  | invalidOperand text => s!"invalid call operand '{text}'"
  | console cause => s!"console I/O failed: {cause.message}"

/-- What is shown to users. -/
def message (e : RuntimeError) : String :=
  s!"runtime error: {e.reason}"

end RuntimeError

end Scriptlet
