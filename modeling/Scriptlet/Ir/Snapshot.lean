import Scriptlet.Ir.Linear
import Scriptlet.Text.Utf8

/-!
# Snapshots

Code stored as bytes: the number of instructions, then each instruction as the number of its kind and its parts.
Numbers are written seven bits to a byte, low bits first, with the high bit set on all bytes but the last. A text is its
length in bytes and its UTF-8 form; an optional part is preceded by zero or one.

Numbers are 64-bit words and numbers of kinds 32-bit words. Reading accepts a number with leading zero groups, but
none that exceeds its width. Bytes after the last instruction are ignored.
-/

namespace Scriptlet.Ir

/-- Why bytes cannot be read as code. -/
inductive SnapshotError where
  | endOfData
  | badNumber
  | badText
  | badOption
  | unknownKind
deriving DecidableEq

/-- What is wrong with the bytes. -/
def SnapshotError.reason : SnapshotError → String
  | endOfData => "Hit the end of buffer, expected more data"
  | badNumber => "Found a varint that didn't terminate. Is the usize too big for this platform?"
  | badText => "Tried to parse invalid utf-8"
  | badOption => "Found an Option discriminant that wasn't 0 or 1"
  | unknownKind => "Serde Deserialization Error"

/-- What is shown to users. -/
def SnapshotError.message (e : SnapshotError) : String :=
  s!"IR snapshot error: {e.reason}"

/-- Why a snapshot cannot be loaded: its bytes cannot be read, or the code in it is not linear. -/
inductive LoadError where
  | snapshot (cause : SnapshotError)
  | linear (cause : LinearError)
deriving DecidableEq

/-- What is shown to users. -/
def LoadError.message : LoadError → String
  | snapshot cause => cause.message
  | linear cause => cause.message

namespace Snapshot

/-! ## Writing -/

/-- A number, seven bits to a byte. -/
def number (n : Nat) : List UInt8 :=
  if n < 128 then [UInt8.ofNat n] else UInt8.ofNat (n % 128 + 128) :: number (n / 128)
termination_by n
decreasing_by omega

/-- A text. -/
def text (s : String) : List UInt8 :=
  let bytes := Text.utf8 s
  number bytes.length ++ bytes

/-- An optional part. -/
def optional (f : α → List UInt8) : Option α → List UInt8
  | none => [0]
  | some a => 1 :: f a

/-- A call. -/
def callSite (site : CallSite) : List UInt8 :=
  text site.callee ++ number site.argc ++ optional number site.target

/-- The right-hand side of an assignment. -/
def rhs : Rhs → List UInt8
  | .single x => number 0 ++ text x
  | .unary op x => number 1 ++ number (UnaryOp.all.idxOf op) ++ text x
  | .binary op x y => number 2 ++ number (BinaryOp.all.idxOf op) ++ text x ++ text y
  | .call site => number 3 ++ callSite site

/-- An instruction. -/
def instruction : Instruction → List UInt8
  | .goto t => number 0 ++ number t
  | .branch x t => number 1 ++ text x ++ number t
  | .assign x r => number 2 ++ text x ++ rhs r
  | .ret x => number 3 ++ text x
  | .param x name => number 4 ++ text x ++ optional text name
  | .call site => number 5 ++ callSite site
  | .stop => number 6
  | .blank => number 7

/-! ## Reading -/

/-- Takes something from the front of the bytes. -/
abbrev Reader := StateT (List UInt8) (Except SnapshotError)

/-- A number of at most `groups` bytes, of which the last possible one is at most `top`. -/
def numberWithin (top : Nat) : Nat → Reader Nat
  | 0 => throw .badNumber
  | groups + 1 => do
    match ← get with
    | [] => throw .endOfData
    | b :: rest =>
      set rest
      if b.toNat < 128 then
        if groups = 0 ∧ top < b.toNat then throw .badNumber else return b.toNat
      else
        let n ← numberWithin top groups
        return b.toNat % 128 + 128 * n

/-- A 64-bit number. -/
def readNumber : Reader Nat :=
  numberWithin 1 10

/-- The number of a kind. -/
def readKind : Reader Nat :=
  numberWithin 15 5

/-- A text. -/
def readText : Reader String := do
  let size ← readNumber
  let bytes := (← get).take size
  if bytes.length < size then throw .endOfData
  modify (·.drop size)
  match Text.ofUtf8? bytes with
  | some s => return s
  | none => throw .badText

/-- An optional part. -/
def readOptional (part : Reader α) : Reader (Option α) := do
  match ← get with
  | [] => throw .endOfData
  | b :: rest =>
    set rest
    if b = 0 then return none
    else if b = 1 then return some (← part)
    else throw .badOption

/-- A member of a numbered list. -/
def readMember (members : List α) : Reader α := do
  match members[← readKind]? with
  | some a => return a
  | none => throw .unknownKind

/-- A call. -/
def readCallSite : Reader CallSite := do
  let callee ← readText
  let argc ← readNumber
  return ⟨callee, argc, ← readOptional readNumber⟩

/-- The right-hand side of an assignment. -/
def readRhs : Reader Rhs := do
  match ← readKind with
  | 0 => return .single (← readText)
  | 1 =>
    let op ← readMember UnaryOp.all
    return .unary op (← readText)
  | 2 =>
    let op ← readMember BinaryOp.all
    let x ← readText
    return .binary op x (← readText)
  | 3 => return .call (← readCallSite)
  | _ => throw .unknownKind

/-- An instruction. -/
def readInstruction : Reader Instruction := do
  match ← readKind with
  | 0 => return .goto (← readNumber)
  | 1 =>
    let x ← readText
    return .branch x (← readNumber)
  | 2 =>
    let x ← readText
    return .assign x (← readRhs)
  | 3 => return .ret (← readText)
  | 4 =>
    let x ← readText
    return .param x (← readOptional readText)
  | 5 => return .call (← readCallSite)
  | 6 => return .stop
  | 7 => return .blank
  | _ => throw .unknownKind

/-- As many instructions as said. -/
def readInstructions : Nat → Reader Code
  | 0 => return []
  | count + 1 => do
    let i ← readInstruction
    return i :: (← readInstructions count)

end Snapshot

namespace Code

/-- The bytes of code. -/
def snapshot (code : Code) : List UInt8 :=
  Snapshot.number code.length ++ code.flatMap Snapshot.instruction

/-- The code at the front of the bytes, linear or not. -/
def ofSnapshot (bytes : List UInt8) : Except SnapshotError Code := do
  let (code, _) ← (do Snapshot.readInstructions (← Snapshot.readNumber) : Snapshot.Reader Code).run bytes
  return code

/-- The linear code at the front of the bytes. -/
def load (bytes : List UInt8) : Except LoadError Code := do
  let code ← (ofSnapshot bytes).mapError .snapshot
  code.validate.mapError .linear
  return code

end Code

end Scriptlet.Ir
