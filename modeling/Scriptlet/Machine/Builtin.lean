import Scriptlet.Machine.Console
import Scriptlet.Value

/-!
# Builtins

The functions that every program can call.
-/

namespace Scriptlet

/-- Builtin functions. -/
inductive Builtin where
  | print
  | tostring
  | tonumber
  | read
deriving DecidableEq

namespace Builtin

/-- The builtin of a name. -/
def ofName? (name : String) : Option Builtin :=
  if name = "print" then some print
  else if name = "tostring" then some tostring
  else if name = "tonumber" then some tonumber
  else if name = "read" then some read
  else none

variable {σ : Type} [Streams σ]

/-- Writes each value on a line of its own. -/
def printLines : List Value → StreamM σ Unit
  | [] => return
  | v :: rest => do
    Streams.writeLine v.text
    printLines rest

/-- Calls a builtin. Only the first argument of a conversion counts, and reading ignores its arguments. -/
def run (b : Builtin) (args : List Value) : StreamM σ Value := do
  match b with
  | print =>
    printLines args
    Streams.flush
    return .nil
  | tostring => return .string (args.headD .nil).text
  | tonumber =>
    match (args.headD .nil).toNumber? with
    | some x => return .number x
    | none => return .nil
  | read =>
    match ← Streams.readLine with
    | some line => return .string line
    | none => return .nil

end Builtin

end Scriptlet
