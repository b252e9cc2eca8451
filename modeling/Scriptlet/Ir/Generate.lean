import Scriptlet.Ir.Linear
import Scriptlet.Syntax.Basic

/-!
# Code of a program

Expressions put every intermediate result into a temporary of its own, so their code runs straight through.
Statements are laid out at a given start, so the targets of their jumps are known when they are written. Only a jump out
of a loop is left open until the loop's code is complete.

A call goes to the function of that name declared last in the innermost scope that has one, or to a builtin if there
is none. Declarations count from where they stand.
-/

namespace Scriptlet.Ir

/-- Why a program has no code. -/
inductive GenerateError where
  | breakOutsideLoop
  | tooManyArguments (callee : String) (expected found : Nat)
  | linear (cause : LinearError)
deriving DecidableEq

/-- What is shown to users. -/
def GenerateError.message : GenerateError → String
  | breakOutsideLoop => "'break' outside of a loop"
  | tooManyArguments callee expected found =>
    s!"function '{callee}' takes {expected} argument(s) but {found} were supplied"
  | linear cause => cause.message

/-- The name of a temporary. -/
def temp (n : Nat) : String :=
  s!"__tmp{n}"

/-- The operand that stands for a missing value. -/
def missing : String := "nil"

/-! ## Names -/

/-- A declared function: its parameters and the place of its code. -/
structure Signature where
  params : List String
  entry : Nat

/-- The functions declared in one function body or at the top, the latest first. -/
abbrev Scope := List (String × Signature)

/-- What is known while code is generated: how many temporaries are in use, and the functions declared so far in the
current scope and in the scopes around it, innermost first. -/
structure Names where
  temps : Nat
  current : Scope
  enclosing : List Scope

namespace Names

/-- Nothing declared, no temporary in use. -/
def initial : Names := ⟨0, [], []⟩

/-- The function that a name refers to. -/
def find? (names : Names) (name : String) : Option Signature :=
  (names.current :: names.enclosing).findSome? fun scope => scope.lookup name

/-- Declares a function in the current scope. -/
def declare (names : Names) (name : String) (signature : Signature) : Names :=
  { names with current := (name, signature) :: names.current }

/-- Opens a scope. -/
def enter (names : Names) : Names :=
  { names with current := [], enclosing := names.current :: names.enclosing }

end Names

/-! ## Expressions -/

/-- The parameters of a call and the call itself. A function of the program gets all its parameters by name, the
missing ones as nil; a builtin gets what is supplied. -/
def callCode (find : String → Option Signature) (callee : String) (args : List String) :
    Except GenerateError (Code × CallSite) :=
  match find callee with
  | none => .ok (args.map (.param · none), ⟨callee, args.length, none⟩)
  | some ⟨params, entry⟩ =>
    if params.length < args.length then
      .error (.tooManyArguments callee params.length args.length)
    else
      let supplied := args ++ List.replicate (params.length - args.length) missing
      .ok (List.zipWith (fun p x => .param x (some p)) params supplied,
        ⟨callee, params.length, some entry⟩)

/-- Applies unary operators in the order of writing, each into a new temporary. -/
def unaryCode : List UnaryOp → String → Nat → Code × String × Nat
  | [], x, temps => ([], x, temps)
  | op :: ops, x, temps =>
    let (code, y, temps') := unaryCode ops (temp temps) (temps + 1)
    (.assign (temp temps) (.unary op x) :: code, y, temps')

mutual

/-- The code of an expression, the operand that holds its value, and the temporaries in use after it. -/
def exprCode (find : String → Option Signature) :
    Expr → Nat → Except GenerateError (Code × String × Nat)
  | .chain _ operands ops, temps => do
    match operands with
    | [] => return ([], missing, temps)
    | e :: es =>
      let (code, x, temps) ← exprCode find e temps
      let (more, y, temps) ← chainCode find es ops x temps
      return (code ++ more, y, temps)
  | .unary ops operand, temps => do
    let (code, x, temps) ← exprCode find operand temps
    let (more, y, temps) := unaryCode ops x temps
    return (code ++ more, y, temps)
  | .name id, temps => return ([.assign (temp temps) (.single id)], temp temps, temps + 1)
  | .literal _ text, temps => return ([.assign (temp temps) (.single text)], temp temps, temps + 1)
  | .paren inner, temps => exprCode find inner temps
  | .call callee args, temps => do
    let (code, xs, temps) ← argsCode find args temps
    let (params, site) ← callCode find callee xs
    return (code ++ params ++ [.assign (temp temps) (.call site)], temp temps, temps + 1)

/-- Folds operators and operands from the left onto the operand `x`. What has no partner is left out. -/
def chainCode (find : String → Option Signature) :
    List Expr → List BinaryOp → String → Nat → Except GenerateError (Code × String × Nat)
  | e :: es, op :: ops, x, temps => do
    let (code, y, temps) ← exprCode find e temps
    let (more, z, temps') ← chainCode find es ops (temp temps) (temps + 1)
    return (code ++ .assign (temp temps) (.binary op x y) :: more, z, temps')
  | _, _, x, temps => return ([], x, temps)

/-- The code of arguments, from left to right, and the operands that hold their values. -/
def argsCode (find : String → Option Signature) :
    List Expr → Nat → Except GenerateError (Code × List String × Nat)
  | [], temps => return ([], [], temps)
  | e :: es, temps => do
    let (code, x, temps) ← exprCode find e temps
    let (more, xs, temps) ← argsCode find es temps
    return (code ++ more, x :: xs, temps)

end

/-! ## Statements -/

/-- An instruction of a statement: complete, or a jump to wherever the enclosing loop ends. -/
inductive Draft where
  | done (i : Instruction)
  | leave

/-- Completes a draft, given where the enclosing loop ends. -/
def Draft.close (loopEnd : Nat) : Draft → Instruction
  | done i => i
  | leave => .goto loopEnd

/-- Code without open jumps. -/
def complete (code : Code) : List Draft :=
  code.map .done

/-- The code of an expression in the current scope. -/
def Names.exprCode (names : Names) (e : Expr) : Except GenerateError (Code × String × Names) := do
  let (code, x, temps) ← Ir.exprCode names.find? e names.temps
  return (code, x, { names with temps })

/-- A branch of a condition is never without instructions. -/
def padded : List Draft → List Draft
  | [] => complete [.blank]
  | code => code

mutual

/-- The code of a statement that starts at the given place. -/
def stmtCode : Stmt → Bool → Nat → Names → Except GenerateError (List Draft × Names)
  | .cond test thenBlock elseBlock, inLoop, start, names => do
    let (code, x, names) ← names.exprCode test
    let thenStart := start + code.length + 2
    let (thenCode, names) ← stmtsCode thenBlock inLoop thenStart names
    let elseStart := thenStart + (padded thenCode).length + 1
    let (elseCode, names) ← stmtsCode elseBlock inLoop elseStart names
    let finish := elseStart + (padded elseCode).length
    return (complete (code ++ [.branch x thenStart, .goto elseStart]) ++ padded thenCode
      ++ complete [.goto finish] ++ padded elseCode ++ complete [.blank], names)
  | .loop test body, _, start, names => do
    let (bodyCode, names) ← stmtsCode body true (start + 1) names
    let testStart := start + 1 + bodyCode.length
    let (code, x, names) ← names.exprCode test
    let finish := testStart + code.length + 1
    let closed := bodyCode.map (Draft.close finish)
    return (complete ([.goto testStart] ++ closed ++ code ++ [.branch x (start + 1), .blank]), names)
  | .ret none, _, _, names => return (complete [.ret missing], names)
  | .ret (some value), _, _, names => do
    let (code, x, names) ← names.exprCode value
    return (complete (code ++ [.ret x]), names)
  | .leave, inLoop, _, names =>
    if inLoop then return ([.leave], names) else .error .breakOutsideLoop
  | .assign name value, _, _, names => do
    let (code, x, names) ← names.exprCode value
    return (complete (code ++ [.assign name (.single x)]), names)
  | .function name params body, _, start, names => do
    let names := names.declare name ⟨params, start + 1⟩
    let (bodyCode, inner) ← stmtsCode body false (start + 2) names.enter
    let finish := start + 2 + bodyCode.length + 1
    return (complete [.goto finish, .blank] ++ bodyCode ++ complete [.ret missing, .blank],
      { names with temps := inner.temps })
  | .call callee args, _, _, names => do
    let (code, xs, temps) ← argsCode names.find? args names.temps
    let (params, site) ← callCode names.find? callee xs
    return (complete (code ++ params ++ [.call site]), { names with temps })

/-- The code of statements, one after the other. -/
def stmtsCode : List Stmt → Bool → Nat → Names → Except GenerateError (List Draft × Names)
  | [], _, _, names => return ([], names)
  | s :: rest, inLoop, start, names => do
    let (code, names) ← stmtCode s inLoop start names
    let (more, names) ← stmtsCode rest inLoop (start + code.length) names
    return (code ++ more, names)

end

/-- The target of a jump that is still open: no code reaches that far. -/
def pending : Nat := 0xffffffffffffffff

/-- The code of a program with its blanks. -/
def arena (program : List Stmt) : Except GenerateError Code := do
  let (code, _) ← stmtsCode program false 0 .initial
  return code.map (Draft.close pending) ++ [.stop]

/-- The linear code of a program. -/
def generate (program : List Stmt) : Except GenerateError Code := do
  (← arena program).linearize.mapError .linear

end Scriptlet.Ir
