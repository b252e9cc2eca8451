import Scriptlet.Text.Utf8

/-!
# Consoles

What a running program reads and writes. A program can run on any streams; all it does with them is to take a line, to
write bytes and to flush. A console is streams in memory: its output may be limited to a number of bytes, and one flush
may be set to fail.
-/

namespace Scriptlet

/-- Why streams failed; `other` is for causes that only other streams than consoles have. -/
inductive ConsoleError where
  | invalidUtf8
  | outputFull
  | flushFailed
  | other (text : String)
deriving DecidableEq

/-- What is shown to users. -/
def ConsoleError.message : ConsoleError → String
  | invalidUtf8 => "stream did not contain valid UTF-8"
  | outputFull => "output limit reached"
  | flushFailed => "flush failed"
  | other text => text

/-- Work on streams, which keeps what it did when it fails. -/
abbrev StreamM (σ : Type) := EStateM ConsoleError σ

/-! ## Streams -/

/-- Streams: taking a line with its end, which is empty at the end of the input, writing bytes and flushing. -/
class Streams (σ : Type) where
  takeLine : StreamM σ String
  write : List UInt8 → StreamM σ Unit
  flush : StreamM σ Unit

namespace Streams

variable {σ : Type} [Streams σ]

/-- A text without its last character, if that is the given one. -/
def chop? (c : Char) (text : String) : Option String :=
  if text.toList.getLast? = some c then some (.ofList text.toList.dropLast) else none

/-- A line without its end, a line feed and at most one carriage return before it. The last line may lack its end; then
nothing is dropped from it. -/
def dropEnd (line : String) : String :=
  match chop? '\n' line with
  | none => line
  | some line => (chop? '\r' line).getD line

/-- Reads a line, or nothing at the end of the input. -/
def readLine : StreamM σ (Option String) := do
  let line ← takeLine
  return if line = "" then none else some (dropEnd line)

/-- Writes a text and ends the line. -/
def writeLine (text : String) : StreamM σ Unit := do
  write (Text.utf8 text)
  write [10]

end Streams

/-! ## Streams in memory -/

/-- A console: the input not yet read, the output so far, how many more bytes the output accepts (any number if
`none`), how often it was flushed, and which flush fails (counted from one, none if `none`). -/
structure Console where
  input : List UInt8
  output : List UInt8
  room : Option Nat
  flushes : Nat
  failingFlush : Option Nat
deriving DecidableEq

namespace Console

/-- A console before its first use. -/
def new (input : List UInt8) (room failingFlush : Option Nat) : Console :=
  ⟨input, [], room, 0, failingFlush⟩

/-- Operations on a console. -/
abbrev Action := StreamM Console

/-- Writes bytes; of those that do not fit, the first ones are still written. -/
def write (bytes : List UInt8) : Action Unit := do
  let c ← get
  match c.room with
  | none => set { c with output := c.output ++ bytes }
  | some n =>
    set { c with output := c.output ++ bytes.take n, room := some (n - bytes.length) }
    if n < bytes.length then throw .outputFull

/-- Flushes the output. -/
def flush : Action Unit := do
  let c ← get
  let count := c.flushes + 1
  set { c with flushes := count }
  if c.failingFlush = some count then throw .flushFailed

/-- The next line of the input with its line feed, if it has one, and the input after it. -/
def splitLine (input : List UInt8) : List UInt8 × List UInt8 :=
  let line := input.takeWhile (· ≠ 10)
  match input.drop line.length with
  | [] => (line, [])
  | feed :: rest => (line ++ [feed], rest)

/-- Takes a line. One that is no text is consumed all the same. -/
def takeLine : Action String := do
  let c ← get
  let (line, rest) := splitLine c.input
  set { c with input := rest }
  match Text.ofUtf8? line with
  | some text => return text
  | none => throw .invalidUtf8

instance : Streams Console := ⟨takeLine, write, flush⟩

end Console

end Scriptlet
