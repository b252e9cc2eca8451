import Mathlib.Tactic
import Scriptlet.Machine.Arithmetic
import Scriptlet.Machine.Builtin
import Scriptlet.Syntax.Basic

/-!
# A direct interpreter

The meaning of syntax trees without code. An activation of a function has one environment. Operands are evaluated from
left to right, all of them, whatever the operator. Which function a call goes to does not depend on the run: it is the
one of that name declared last, before the call, in the innermost scope that has one.

Runs are bounded by fuel, which is used up by the rounds of a loop and by calls inside calls.
-/

namespace Scriptlet

/-! ## Environments -/

/-- What the variables of an activation hold; a name that is not bound holds nil. -/
abbrev Env := String → Value

namespace Env

/-- Nothing is bound. -/
def empty : Env := fun _ => .nil

/-- Binds a name. -/
def set (env : Env) (name : String) (v : Value) : Env :=
  fun x => if x = name then v else env x

/-- Binds names one after the other, the later ones over the earlier ones. -/
def setAll (env : Env) : List (String × Value) → Env
  | [] => env
  | (name, v) :: rest => setAll (env.set name v) rest

@[simp]
theorem set_same (env : Env) (name : String) (v : Value) : env.set name v name = v := by
  simp [set]

theorem set_other (env : Env) {name x : String} (v : Value) (h : x ≠ name) : env.set name v x = env x := by
  simp [set, h]

end Env

namespace Interpreter

/-! ## Computations -/

/-- A computation changes the console and gives a value or fails, unless it runs out of fuel. -/
def Eval (σ α : Type) := σ → Option (Except RuntimeError α × σ)

namespace Eval

variable {σ : Type}

instance : Monad (Eval σ) where
  pure a := fun console => some (.ok a, console)
  bind x f := fun console =>
    match x console with
    | none => none
    | some (.error e, console) => some (.error e, console)
    | some (.ok a, console) => f a console

/-- The result of a computation that does not touch the console. -/
def lift {α : Type} (r : Except RuntimeError α) : Eval σ α :=
  fun console => some (r, console)

/-- There is no fuel left. -/
def exhausted {α : Type} : Eval σ α :=
  fun _ => none

end Eval

/-! ## Functions -/

/-- A declared function. -/
structure Function where
  params : List String
  body : List Stmt

/-- The functions declared in one function body or at the top, the latest first. -/
abbrev Scope := List (String × Function)

/-- The functions declared so far in the current scope and in the scopes around it, innermost first. -/
structure Context where
  current : Scope
  enclosing : List Scope

/-- The latest function of a name, and the scope as it was when that function was declared. -/
def Scope.find? (name : String) : Scope → Option (Function × Scope)
  | [] => none
  | (x, f) :: scope => if x = name then some (f, (x, f) :: scope) else Scope.find? name scope

/-- The function of a name in the innermost scope that has one, and the scopes around its body. -/
def findIn? (name : String) : List Scope → Option (Function × List Scope)
  | [] => none
  | scope :: outer =>
    match scope.find? name with
    | some (f, visible) => some (f, visible :: outer)
    | none => findIn? name outer

namespace Context

/-- The function that a name refers to, and the context in which its body begins. -/
def find? (ctx : Context) (name : String) : Option (Function × Context) :=
  (findIn? name (ctx.current :: ctx.enclosing)).map fun (f, around) => (f, ⟨[], around⟩)

/-- Declares a function in the current scope. -/
def declare (ctx : Context) (name : String) (f : Function) : Context :=
  { ctx with current := (name, f) :: ctx.current }

end Context

mutual

/-- The context after a statement. Blocks are no scopes, and a declaration counts whether or not it is reached. -/
def declared (ctx : Context) : Stmt → Context
  | .cond _ thenBlock elseBlock => declaredAll (declaredAll ctx thenBlock) elseBlock
  | .loop _ body => declaredAll ctx body
  | .function name params body => ctx.declare name ⟨params, body⟩
  | _ => ctx

/-- The context after statements. -/
def declaredAll (ctx : Context) : List Stmt → Context
  | [] => ctx
  | s :: rest => declaredAll (declared ctx s) rest

end

/-! ## Expressions -/

variable {σ : Type}

/-- The value of a literal. Strings are written in quotes. -/
def literalValue : LiteralKind → String → Value
  | .string, text => .ofLiteral (String.ofList text.toList.tail.dropLast)
  | _, text => .ofLiteral text

/-- Applies unary operators in the order of writing. -/
def applyAll : List UnaryOp → Value → Except RuntimeError Value
  | [], v => .ok v
  | op :: ops, v => op.apply v >>= applyAll ops

mutual

/-- The value of an expression, given what calls do. -/
def evalExpr (call : String → List Value → Eval σ Value) (env : Env) : Expr → Eval σ Value
  | .chain _ operands ops =>
    match operands with
    | [] => pure .nil
    | e :: es => do
      let v ← evalExpr call env e
      evalTail call env es ops v
  | .unary ops operand => do
    let v ← evalExpr call env operand
    Eval.lift (applyAll ops v)
  | .name id => pure (env id)
  | .literal kind text => pure (literalValue kind text)
  | .paren inner => evalExpr call env inner
  | .call callee args => do
    let vs ← evalArgs call env args
    call callee vs

/-- Folds operators and operands from the left onto a value. -/
def evalTail (call : String → List Value → Eval σ Value) (env : Env) : List Expr → List BinaryOp → Value → Eval σ Value
  | e :: es, op :: ops, v => do
    let w ← evalExpr call env e
    let u ← Eval.lift (op.apply v w)
    evalTail call env es ops u
  | _, _, v => pure v

/-- The values of arguments, from left to right. -/
def evalArgs (call : String → List Value → Eval σ Value) (env : Env) : List Expr → Eval σ (List Value)
  | [] => pure []
  | e :: es => do
    let v ← evalExpr call env e
    let vs ← evalArgs call env es
    return v :: vs

end

/-! ## Statements -/

/-- How statements end: to be followed by the next one, by leaving the enclosing loop, or by a return. -/
inductive Flow where
  | next (env : Env)
  | leave (env : Env)
  | ret (v : Value)

/-- Runs a loop for at most the given number of rounds. -/
def iterate (test : Env → Eval σ Value) (body : Env → Eval σ Flow) : Nat → Env → Eval σ Flow
  | 0, _ => Eval.exhausted
  | rounds + 1, env => do
    let v ← test env
    if v.truthy then
      match ← body env with
      | .next env => iterate test body rounds env
      | .leave env => return .next env
      | .ret v => return .ret v
    else return .next env

mutual

/-- Runs a statement, given what calls in a context do. Calls in the test of a loop see what its body declares. -/
def exec (fuel : Nat) (call : Context → String → List Value → Eval σ Value) (ctx : Context) (env : Env) :
    Stmt → Eval σ Flow
  | .cond test thenBlock elseBlock => do
    let v ← evalExpr (call ctx) env test
    if v.truthy then execAll fuel call ctx env thenBlock
    else execAll fuel call (declaredAll ctx thenBlock) env elseBlock
  | .loop test body =>
    iterate (fun env => evalExpr (call (declaredAll ctx body)) env test) (fun env => execAll fuel call ctx env body)
      fuel env
  | .ret none => return .ret .nil
  | .ret (some value) => do
    let v ← evalExpr (call ctx) env value
    return .ret v
  | .leave => return .leave env
  | .assign name value => do
    let v ← evalExpr (call ctx) env value
    return .next (env.set name v)
  | .function _ _ _ => return .next env
  | .call callee args => do
    let vs ← evalArgs (call ctx) env args
    let _ ← call ctx callee vs
    return .next env

/-- Runs statements one after the other. -/
def execAll (fuel : Nat) (call : Context → String → List Value → Eval σ Value) (ctx : Context) (env : Env) :
    List Stmt → Eval σ Flow
  | [] => return .next env
  | s :: rest => do
    match ← exec fuel call ctx env s with
    | .next env => execAll fuel call (declared ctx s) env rest
    | flow => return flow

end

/-! ## Calls -/

variable [Streams σ]

/-- Calls a builtin. -/
def callBuiltin (name : String) (args : List Value) : Eval σ Value := fun console =>
  match Builtin.ofName? name with
  | none => some (.error (.unknownBuiltin name), console)
  | some b =>
    match b.run args console with
    | .ok v console => some (.ok v, console)
    | .error e console => some (.error (.console e), console)

/-- Calls whatever a name refers to, at the given number of activations. -/
def callIn (limit depth : Nat) (enter : Function → Context → List Value → Eval σ Value) (ctx : Context) (name : String)
    (args : List Value) : Eval σ Value :=
  match ctx.find? name with
  | none => callBuiltin name args
  | some (f, inner) => if limit ≤ depth then Eval.lift (.error (.stackOverflow limit)) else enter f inner args

/-- The environment in which the body of a function begins. Missing arguments are nil. -/
def bindParams (params : List String) (args : List Value) : Env :=
  Env.empty.setAll (params.zip (args ++ List.replicate (params.length - args.length) .nil))

/-- Runs the body of a function in an activation of its own, which is the `depth`-th. -/
def enter (limit : Nat) : Nat → Nat → Function → Context → List Value → Eval σ Value
  | 0, _, _, _, _ => Eval.exhausted
  | fuel + 1, depth, f, inner, args => do
    match ← execAll fuel (callIn limit depth (enter limit fuel (depth + 1))) inner (bindParams f.params args) f.body with
    | .ret v => return v
    | _ => return .nil

/-- Runs a program. Gives the value returned at the top, if there is one, and the console after the run. -/
def run (fuel : Nat) (program : List Stmt) (limit : Nat) (console : σ) :
    Option (Except RuntimeError (Option Value) × σ) :=
  let result : Eval σ (Option Value) := do
    match ← execAll fuel (callIn limit 1 (enter limit fuel 2)) ⟨[], []⟩ Env.empty program with
    | .ret v => return some v
    | _ => return none
  result console

end Interpreter

end Scriptlet
