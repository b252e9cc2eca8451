import Scriptlet.Ir.Generate

/-!
# Generators

A generator writes the code of a program in one pass. A jump ahead is written with an open target and noted; the target
is put in place when the code that it goes to is there. The jumps out of a loop wait until the loop's code is complete.
-/

namespace Scriptlet.Ir

/-- What a generator holds: the code written so far, how many temporaries are in use, the functions declared in the
current scope and in those around it, innermost first, and for each loop around the current place, innermost first, the
jumps out of it that are still open. -/
structure Generator where
  code : Code
  temps : Nat
  scopes : List Scope
  exits : List (List Nat)

/-- A generator before the first statement. -/
def Generator.initial : Generator :=
  ⟨[], 0, [[]], []⟩

/-- What a generator does. -/
abbrev Generation := StateT Generator (Except GenerateError)

namespace Generation

/-- The place of the next instruction. -/
def here : Generation Nat :=
  return (← get).code.length

/-- Writes an instruction. Gives its place. -/
def emit (i : Instruction) : Generation Nat := do
  let place ← here
  modify fun g => { g with code := g.code ++ [i] }
  return place

/-- Puts the target of a jump in place. -/
def patch (place target : Nat) : Generation Unit :=
  modify fun g => { g with code := g.code.modify place (Instruction.mapTarget fun _ => target) }

/-- Puts the target of several jumps in place. -/
def patchAll (target : Nat) : List Nat → Generation Unit
  | [] => return
  | place :: rest => do
    patch place target
    patchAll target rest

/-- A temporary that is not in use. -/
def newTemp : Generation String := do
  let name := temp (← get).temps
  modify fun g => { g with temps := g.temps + 1 }
  return name

/-- Computes something into a new temporary. -/
def compute (rhs : Rhs) : Generation String := do
  let name ← newTemp
  let _ ← emit (.assign name rhs)
  return name

/-- The function that a name refers to. -/
def find? (name : String) : Generation (Option Signature) :=
  return (← get).scopes.findSome? fun scope => scope.lookup name

/-- Declares a function in the current scope. -/
def declare (name : String) (signature : Signature) : Generation Unit :=
  modify fun g => match g.scopes with
    | [] => g
    | scope :: outer => { g with scopes := ((name, signature) :: scope) :: outer }

/-! ## Expressions -/

/-- Passes arguments in order. -/
def pass : List String → Generation Unit
  | [] => return
  | x :: xs => do
    let _ ← emit (.param x none)
    pass xs

/-- Passes an argument for each parameter, nil where there is none. -/
def passNamed : List String → List String → Generation Unit
  | [], _ => return
  | p :: ps, xs => do
    let _ ← emit (.param (xs.headD missing) (some p))
    passNamed ps xs.tail

/-- Passes the parameters of a call. -/
def call (callee : String) (args : List String) : Generation CallSite := do
  match ← find? callee with
  | none =>
    pass args
    return ⟨callee, args.length, none⟩
  | some ⟨params, entry⟩ =>
    if params.length < args.length then throw (.tooManyArguments callee params.length args.length)
    passNamed params args
    return ⟨callee, params.length, some entry⟩

/-- Applies unary operators in the order of writing. -/
def unary : List UnaryOp → String → Generation String
  | [], x => return x
  | op :: ops, x => do
    let y ← compute (.unary op x)
    unary ops y

mutual

/-- Writes the code of an expression. Gives the operand that holds its value. -/
def expr : Expr → Generation String
  | .chain _ operands ops => do
    match operands with
    | [] => return missing
    | e :: es =>
      let x ← expr e
      chain es ops x
  | .unary ops operand => do
    let x ← expr operand
    unary ops x
  | .name id => compute (.single id)
  | .literal _ text => compute (.single text)
  | .paren inner => expr inner
  | .call callee args => do
    let xs ← exprs args
    let site ← call callee xs
    compute (.call site)

/-- Folds operators and operands from the left onto the operand `x`. -/
def chain : List Expr → List BinaryOp → String → Generation String
  | e :: es, op :: ops, x => do
    let y ← expr e
    let z ← compute (.binary op x y)
    chain es ops z
  | _, _, x => return x

/-- Writes the code of arguments from left to right. -/
def exprs : List Expr → Generation (List String)
  | [] => return []
  | e :: es => do
    let x ← expr e
    let xs ← exprs es
    return x :: xs

end

/-! ## Statements -/

/-- Writes a blank, unless something was written since the given place. -/
def pad (start : Nat) : Generation Unit := do
  if (← here) = start then
    let _ ← emit .blank

/-- Notes a jump out of the innermost loop. -/
def noteExit (place : Nat) : Generation Unit := do
  match (← get).exits with
  | [] => throw .breakOutsideLoop
  | exits :: outer => modify fun g => { g with exits := (exits ++ [place]) :: outer }

/-- Ends the innermost loop. Gives the jumps out of it. -/
def closeLoop : Generation (List Nat) := do
  let exits := (← get).exits
  modify fun g => { g with exits := exits.tail }
  return exits.headD []

mutual

/-- Writes the code of a statement. -/
def statement : Stmt → Generation Unit
  | .cond test thenBlock elseBlock => do
    let x ← expr test
    let toThen ← emit (.branch x pending)
    let toElse ← emit (.goto pending)
    let thenStart ← here
    statements thenBlock
    pad thenStart
    let toEnd ← emit (.goto pending)
    let elseStart ← here
    statements elseBlock
    pad elseStart
    let finish ← emit .blank
    patch toThen thenStart
    patch toElse elseStart
    patch toEnd finish
  | .loop test body => do
    let toTest ← emit (.goto pending)
    modify fun g => { g with exits := [] :: g.exits }
    let bodyStart ← here
    statements body
    let breaks ← closeLoop
    let testStart ← here
    let x ← expr test
    let _ ← emit (.branch x bodyStart)
    let finish ← emit .blank
    patch toTest testStart
    patchAll finish breaks
  | .ret none => do
    let _ ← emit (.ret missing)
  | .ret (some value) => do
    let x ← expr value
    let _ ← emit (.ret x)
  | .leave => do
    let place ← emit (.goto pending)
    noteExit place
  | .assign name value => do
    let x ← expr value
    let _ ← emit (.assign name (.single x))
  | .function name params body => do
    let toEnd ← emit (.goto pending)
    let entry ← emit .blank
    declare name ⟨params, entry⟩
    -- the body is within none of the loops around the function
    let outer := (← get).exits
    modify fun g => { g with exits := [], scopes := [] :: g.scopes }
    statements body
    modify fun g => { g with exits := outer, scopes := g.scopes.tail }
    let _ ← emit (.ret missing)
    let finish ← emit .blank
    patch toEnd finish
  | .call callee args => do
    let xs ← exprs args
    let site ← call callee xs
    let _ ← emit (.call site)

/-- Writes the code of statements, one after the other. -/
def statements : List Stmt → Generation Unit
  | [] => return
  | s :: rest => do
    statement s
    statements rest

end

/-- Writes the code of a program. -/
def program (stmts : List Stmt) : Generation Unit := do
  statements stmts
  let _ ← emit .stop

end Generation

/-- The code of a program with its blanks, as a generator writes it. -/
def Generator.arena (stmts : List Stmt) : Except GenerateError Code := do
  let ((), g) ← (Generation.program stmts).run .initial
  return g.code

/-- The linear code of a program, as a generator writes it. -/
def Generator.generate (stmts : List Stmt) : Except GenerateError Code := do
  (← Generator.arena stmts).linearize.mapError .linear

end Scriptlet.Ir
