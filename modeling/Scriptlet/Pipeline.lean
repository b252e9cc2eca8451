import Scriptlet.Bytecode.Image
import Scriptlet.Bytecode.Lower
import Scriptlet.Ir.Generate
import Scriptlet.Machine.Basic
import Scriptlet.Syntax.Parser
import Scriptlet.Token.Scan

/-!
# From source to result

The stages in sequence: tokens, syntax tree, linear code, operations, image, run.

What a run needs of the world is what it is given: streams of any kind, among them those of a process. Memory never runs
out, however many values a count asks for, and nothing is logged.
-/

namespace Scriptlet

/-- Why a source text cannot be compiled. -/
inductive CompileError where
  | scan (cause : ScanError)
  | parse (cause : ParseError)
  | generate (cause : Ir.GenerateError)
  | lower (cause : Bytecode.UnresolvedTarget)
  | encode (cause : Image.EncodeError)

/-- Why a source text or an image gives no result. -/
inductive RunError where
  | compile (cause : CompileError)
  | decode (cause : Image.DecodeError)
  | runtime (cause : RuntimeError)

/-- The syntax tree of a source text. -/
def parseSource (source : String) : Except CompileError (List Stmt) := do
  let tokens ← (tokenize source).mapError .scan
  (parse tokens).mapError .parse

/-- The linear code of a source text. -/
def codeOfSource (source : String) : Except CompileError Ir.Code := do
  let program ← parseSource source
  (Ir.generate program).mapError .generate

/-- The operations of a source text. -/
def opsOfSource (source : String) : Except CompileError (List Op) := do
  let code ← codeOfSource source
  (Bytecode.lower code).mapError .lower

/-- The image of a source text. -/
def imageOfSource (source : String) : Except CompileError (List UInt8) := do
  let ops ← opsOfSource source
  (Image.encode ops).mapError .encode

variable {σ : Type} [Streams σ]

/-- Runs an image for at most `fuel` steps. Gives the result and the console after the run. -/
def runImage (fuel : Nat) (bytes : List UInt8) (limit : Nat) (console : σ) :
    Option (Except RunError (Option Value) × σ) :=
  match Image.decode bytes with
  | .error e => some (.error (.decode e), console)
  | .ok ops =>
    match Machine.run fuel (.ofOps ops limit console) with
    | none => none
    | some (m, outcome) => some (outcome.mapError .runtime, m.console)

/-- Compiles and runs a source text. The operations go through their image, which classifies literals anew. -/
def runSource (fuel : Nat) (source : String) (limit : Nat) (console : σ) :
    Option (Except RunError (Option Value) × σ) :=
  match imageOfSource source with
  | .error e => some (.error (.compile e), console)
  | .ok bytes => runImage fuel bytes limit console

end Scriptlet
