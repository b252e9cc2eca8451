import Scriptlet.Bytecode.Op
import Scriptlet.Text.Utf8

/-!
# Binary images

Operations as bytes: the code of each operation and, where it has an argument, the argument's text with its length in two
bytes, the high one first. A literal is stored as its text alone, so reading it back classifies it anew.
-/

namespace Scriptlet

/-! ## Writing -/

/-- The code of an operation. -/
def Op.opcode : Op → UInt8
  | .binary op => UInt8.ofNat (BinaryOp.all.idxOf op)
  | .unary op => UInt8.ofNat (13 + UnaryOp.all.idxOf op)
  | .pushSlot _ => 16
  | .push _ => 17
  | .pop => 18
  | .store => 19
  | .jump => 20
  | .branch => 21
  | .call => 22
  | .callBuiltin => 23
  | .ret => 24
  | .halt => 25

/-- The text of an operation's argument. -/
def Op.payload? : Op → Option String
  | .pushSlot slot => some (toString slot)
  | .push value => some value.text
  | _ => none

namespace Image

/-- An argument that is too long to be stored. -/
structure EncodeError where
  index : Nat
  size : Nat
deriving DecidableEq

/-- What is shown to users. -/
def EncodeError.message (e : EncodeError) : String :=
  s!"op {e.index}: payload of {e.size} bytes exceeds the 65535-byte limit"

/-- The largest size of an argument's text, in bytes. -/
def maxPayload : Nat := 65535

/-- A length in two bytes. -/
def lengthBytes (n : Nat) : List UInt8 :=
  [UInt8.ofNat (n / 256), UInt8.ofNat (n % 256)]

/-- The bytes of an operation whose argument is not too long. -/
def opBytes (op : Op) : List UInt8 :=
  match op.payload? with
  | none => [op.opcode]
  | some text =>
    let bytes := Text.utf8 text
    op.opcode :: lengthBytes bytes.length ++ bytes

/-- The size of an operation's argument, in bytes. -/
def payloadSize (op : Op) : Nat :=
  match op.payload? with
  | none => 0
  | some text => (Text.utf8 text).length

/-- The bytes of operations that are numbered from `index` on. -/
def encodeFrom (index : Nat) : List Op → Except EncodeError (List UInt8)
  | [] => .ok []
  | op :: ops =>
    if maxPayload < payloadSize op then .error ⟨index, payloadSize op⟩
    else return opBytes op ++ (← encodeFrom (index + 1) ops)

/-- The image of operations. -/
def encode (ops : List Op) : Except EncodeError (List UInt8) :=
  encodeFrom 0 ops

/-! ## Reading -/

/-- What is wrong with an operation's bytes. -/
inductive Fault where
  | unknownOpcode (code : UInt8)
  | truncated
  | invalidUtf8
  | invalidSlot (payload : String)
deriving DecidableEq

/-- A fault and the offset of the operation that has it. -/
structure DecodeError where
  offset : Nat
  fault : Fault
deriving DecidableEq

/-- What is wrong. -/
def Fault.reason : Fault → String
  | unknownOpcode code => s!"unknown opcode {code.toNat}"
  | truncated => "unexpected end of input"
  | invalidUtf8 => "payload is not valid UTF-8"
  | invalidSlot payload => s!"invalid slot '{payload}'"

/-- What is shown to users. -/
def DecodeError.message (e : DecodeError) : String :=
  s!"offset {e.offset}: {e.fault.reason}"

/-- The slot that an argument names: digits after an optional plus sign, for a 64-bit number. -/
def slot? (text : String) : Option Nat :=
  let digits := match text.toList with
    | '+' :: rest => rest
    | cs => cs
  let n := Nat.ofDigitChars 10 digits 0
  if !digits.isEmpty && digits.all Char.isDigit && n < Nat.pow 2 64 then some n else none

/-- The argument at the front of the bytes, and the number of bytes it takes with its length. -/
def payload : List UInt8 → Except Fault (String × Nat)
  | hi :: lo :: rest =>
    let size := 256 * hi.toNat + lo.toNat
    let bytes := rest.take size
    if bytes.length < size then .error .truncated
    else match Text.ofUtf8? bytes with
      | some text => .ok (text, size + 2)
      | none => .error .invalidUtf8
  | _ => .error .truncated

/-- The operation with the given code, and the number of bytes it takes after the code. -/
def decodeOp (code : UInt8) (rest : List UInt8) : Except Fault (Op × Nat) :=
  if code = 16 then do
    let (text, size) ← payload rest
    match slot? text with
    | some slot => .ok (.pushSlot slot, size)
    | none => .error (.invalidSlot text)
  else if code = 17 then do
    let (text, size) ← payload rest
    .ok (.push (.ofLiteral text), size)
  else match Op.simple.find? (·.opcode == code) with
    | some op => .ok (op, 0)
    | none => .error (.unknownOpcode code)

/-- Reads operations from an offset on, after passing over the first `skip` bytes, which belong to an operation that
is already known. -/
def decodeFrom : Nat → Nat → List UInt8 → Except DecodeError (List Op)
  | _, _, [] => .ok []
  | skip + 1, offset, _ :: rest => decodeFrom skip (offset + 1) rest
  | 0, offset, code :: rest =>
    match decodeOp code rest with
    | .error fault => .error ⟨offset, fault⟩
    | .ok (op, size) => return op :: (← decodeFrom size (offset + 1) rest)

/-- The operations of an image. -/
def decode (bytes : List UInt8) : Except DecodeError (List Op) :=
  decodeFrom 0 0 bytes

end Image

end Scriptlet
