import Scriptlet.Syntax.Operator

/-!
# Three-address code

A program as a list of instructions. Operands are texts: a name, a literal, or a quoted string. Jumps and calls
name the instruction they go to by its place in the list.
-/

namespace Scriptlet.Ir

/-- A call: whom, with how many parameters, and where its code is if the program defines it. -/
structure CallSite where
  callee : String
  argc : Nat
  target : Option Nat
deriving DecidableEq

/-- What an assignment computes. -/
inductive Rhs where
  | single (operand : String)
  | unary (op : UnaryOp) (operand : String)
  | binary (op : BinaryOp) (lhs rhs : String)
  | call (site : CallSite)
deriving DecidableEq

/-- Instructions. A blank does nothing but hold a place. -/
inductive Instruction where
  | goto (target : Nat)
  | branch (cond : String) (target : Nat)
  | assign (lhs : String) (rhs : Rhs)
  | ret (operand : String)
  | param (value : String) (name : Option String)
  | call (site : CallSite)
  | stop
  | blank
deriving DecidableEq

/-- Code: instructions, numbered from zero. -/
abbrev Code := List Instruction

/-- A call in a listing. -/
def CallSite.render (site : CallSite) : String :=
  match site.target with
  | some t => s!"call {site.callee} {site.argc} {t}"
  | none => s!"call {site.callee} {site.argc}"

/-- The right-hand side of an assignment in a listing. -/
def Rhs.render : Rhs → String
  | single x => x
  | unary op x => s!"{op.symbol} {x}"
  | binary op x y => s!"{x} {op.symbol} {y}"
  | call site => site.render

namespace Instruction

/-- Whether an instruction only holds a place. -/
def isBlank : Instruction → Bool
  | blank => true
  | _ => false

/-- The instruction that a jump or call goes to. -/
def target? : Instruction → Option Nat
  | goto t => some t
  | branch _ t => some t
  | assign _ (.call site) => site.target
  | call site => site.target
  | _ => none

/-- Changes the target, where there is one. -/
def mapTarget (f : Nat → Nat) : Instruction → Instruction
  | goto t => goto (f t)
  | branch x t => branch x (f t)
  | assign x (.call site) => assign x (.call { site with target := site.target.map f })
  | call site => call { site with target := site.target.map f }
  | i => i

/-- The name that an instruction binds: that of the variable assigned or of the parameter passed. -/
def binds? : Instruction → Option String
  | assign x _ => some x
  | param _ name => name
  | _ => none

/-- An instruction in a listing. -/
def render : Instruction → String
  | goto t => s!"goto {t}"
  | branch x t => s!"if {x} goto {t}"
  | assign x rhs => s!"{x} = {rhs.render}"
  | ret x => s!"return {x}"
  | param x (some name) => s!"push parameter {name} = {x}"
  | param x none => s!"push parameter {x}"
  | call site => site.render
  | stop => "end"
  | blank => "blank"

end Instruction

/-- The lines of a listing, numbered from `id` on. -/
def Code.linesFrom (id : Nat) : Code → List String
  | [] => []
  | i :: is => s!"{id}: {i.render}\n" :: Code.linesFrom (id + 1) is

/-- The listing of code. -/
def Code.render (code : Code) : String :=
  String.join (Code.linesFrom 0 code)

end Scriptlet.Ir
