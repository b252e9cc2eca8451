import Scriptlet.Bytecode.Assembler
import Scriptlet.Bytecode.Image
import Scriptlet.Bytecode.Listing
import Scriptlet.Bytecode.Lower
import Scriptlet.Bytecode.Op
import Scriptlet.Ir.Basic
import Scriptlet.Ir.Generate
import Scriptlet.Ir.Generator
import Scriptlet.Ir.Linear
import Scriptlet.Ir.Snapshot
import Scriptlet.Machine.Arithmetic
import Scriptlet.Machine.Basic
import Scriptlet.Machine.Builtin
import Scriptlet.Machine.Console
import Scriptlet.Machine.Error
import Scriptlet.Machine.Frame
import Scriptlet.Number.Basic
import Scriptlet.Number.Decimal
import Scriptlet.Number.Magnitude
import Scriptlet.Number.Shortest
import Scriptlet.Pipeline
import Scriptlet.Proofs.Actions
import Scriptlet.Proofs.Bytecode.Assembly
import Scriptlet.Proofs.Bytecode.Image
import Scriptlet.Proofs.Bytecode.ImageLaws
import Scriptlet.Proofs.Bytecode.Layout
import Scriptlet.Proofs.Bytecode.Linear
import Scriptlet.Proofs.Bytecode.Marks
import Scriptlet.Proofs.Bytecode.Safety
import Scriptlet.Proofs.Bytecode.Simulation
import Scriptlet.Proofs.Bytecode.Truncation
import Scriptlet.Proofs.Compilation
import Scriptlet.Proofs.Correctness
import Scriptlet.Proofs.Interpreter.Basic
import Scriptlet.Proofs.Interpreter.Expressions
import Scriptlet.Proofs.Interpreter.Functions
import Scriptlet.Proofs.Interpreter.Operands
import Scriptlet.Proofs.Interpreter.Runs
import Scriptlet.Proofs.Interpreter.Statements
import Scriptlet.Proofs.Ir.Backpatching
import Scriptlet.Proofs.Ir.Balance
import Scriptlet.Proofs.Ir.Blocks
import Scriptlet.Proofs.Ir.Events
import Scriptlet.Proofs.Ir.Faults
import Scriptlet.Proofs.Ir.GeneratedBalance
import Scriptlet.Proofs.Ir.Generation
import Scriptlet.Proofs.Ir.Ledger
import Scriptlet.Proofs.Ir.LinearForm
import Scriptlet.Proofs.Ir.Linearization
import Scriptlet.Proofs.Ir.Machine
import Scriptlet.Proofs.Ir.Regions
import Scriptlet.Proofs.Ir.Renaming
import Scriptlet.Proofs.Ir.Snapshot
import Scriptlet.Proofs.Ir.StaticScope
import Scriptlet.Proofs.Ir.Temporaries
import Scriptlet.Proofs.Machine.Addresses
import Scriptlet.Proofs.Machine.Console
import Scriptlet.Proofs.Machine.FaultingSteps
import Scriptlet.Proofs.Machine.Faults
import Scriptlet.Proofs.Machine.Inversion
import Scriptlet.Proofs.Machine.Isolation
import Scriptlet.Proofs.Machine.Limit
import Scriptlet.Proofs.Machine.Lines
import Scriptlet.Proofs.Machine.Safety
import Scriptlet.Proofs.Machine.Steps
import Scriptlet.Proofs.Number.Bits
import Scriptlet.Proofs.Number.Length
import Scriptlet.Proofs.Number.Nearest
import Scriptlet.Proofs.Number.Range
import Scriptlet.Proofs.Number.Text
import Scriptlet.Proofs.Operands
import Scriptlet.Proofs.Renaming
import Scriptlet.Proofs.Respacing
import Scriptlet.Proofs.StackSafety
import Scriptlet.Proofs.Syntax.Grammar
import Scriptlet.Proofs.Syntax.Inverse
import Scriptlet.Proofs.Syntax.Mentions
import Scriptlet.Proofs.Syntax.Positions
import Scriptlet.Proofs.Syntax.Printing
import Scriptlet.Proofs.Syntax.Reading
import Scriptlet.Proofs.Syntax.Termination
import Scriptlet.Proofs.Syntax.Texts
import Scriptlet.Proofs.Syntax.ValidPrefix
import Scriptlet.Proofs.Text.Classes
import Scriptlet.Proofs.Token.Lexemes
import Scriptlet.Proofs.Token.Lexing
import Scriptlet.Proofs.Token.Placement
import Scriptlet.Proofs.Token.Regex
import Scriptlet.Proofs.Token.Separation
import Scriptlet.Syntax.Basic
import Scriptlet.Syntax.Cursor
import Scriptlet.Syntax.Operator
import Scriptlet.Syntax.Parser
import Scriptlet.Text.Alphabetic
import Scriptlet.Text.Mark
import Scriptlet.Text.Quoted
import Scriptlet.Text.Ranges
import Scriptlet.Text.Utf8
import Scriptlet.Text.Word
import Scriptlet.Token.Basic
import Scriptlet.Token.Lexeme
import Scriptlet.Token.Lexer
import Scriptlet.Token.Scan
import Scriptlet.Value
