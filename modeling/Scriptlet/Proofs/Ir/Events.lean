import Mathlib.Tactic
import Scriptlet.Ir.Generate
import Scriptlet.Proofs.Ir.Machine

/-!
# The way through a program

A program as what is met on the way through it: instructions, calls, breaks, and the ends of loops and functions. The way
follows the text, but the test of a loop comes after its body, and a call after its arguments. What a break or a call means
depends on the point where it is met: on the loops that are open there and the functions that were declared before.
-/

namespace Scriptlet

/-! ## Programs -/

mutual

/-- Whether all chains of an expression have one operator between any two neighbours. -/
def Expr.joined : Expr → Bool
  | .chain _ operands ops => operands.length == ops.length + 1 && Expr.allJoined operands
  | .unary _ operand => operand.joined
  | .name _ => true
  | .literal _ _ => true
  | .paren inner => inner.joined
  | .call _ args => Expr.allJoined args

def Expr.allJoined : List Expr → Bool
  | [] => true
  | e :: es => e.joined && Expr.allJoined es

end

theorem Expr.joined_chain_cons {layer : Layer} {e : Expr} {es : List Expr} {ops : List BinaryOp} :
    (Expr.chain layer (e :: es) ops).joined = true
      ↔ es.length = ops.length ∧ e.joined = true ∧ Expr.allJoined es = true := by
  simp [Expr.joined, Expr.allJoined]

mutual

def Stmt.joined : Stmt → Bool
  | .cond test thenBlock elseBlock => test.joined && Stmt.allJoined thenBlock && Stmt.allJoined elseBlock
  | .loop test body => test.joined && Stmt.allJoined body
  | .ret none => true
  | .ret (some value) => value.joined
  | .leave => true
  | .assign _ value => value.joined
  | .function _ _ body => Stmt.allJoined body
  | .call _ args => Expr.allJoined args

def Stmt.allJoined : List Stmt → Bool
  | [] => true
  | s :: rest => s.joined && Stmt.allJoined rest

end

namespace Ir

/-! ## Events -/

/-- What is met on the way through a program. -/
inductive Event where
  /-- Instructions that neither call anything nor leave a loop. -/
  | plain (count : Nat)
  | call (callee : String) (supplied : Nat)
  | leave
  | openLoop
  | closeLoop
  | openFunction (name : String) (params : List String)
  | closeFunction

mutual

def exprEvents : Expr → List Event
  | .chain _ operands _ => chainEvents operands
  | .unary ops operand => exprEvents operand ++ [.plain ops.length]
  | .name _ => [.plain 1]
  | .literal _ _ => [.plain 1]
  | .paren inner => exprEvents inner
  | .call callee args => argsEvents args ++ [.call callee args.length]

def chainEvents : List Expr → List Event
  | [] => []
  | e :: es => exprEvents e ++ tailEvents es

/-- Each operand of a chain but the first is followed by the operator before it. -/
def tailEvents : List Expr → List Event
  | [] => []
  | e :: es => exprEvents e ++ .plain 1 :: tailEvents es

def argsEvents : List Expr → List Event
  | [] => []
  | e :: es => exprEvents e ++ argsEvents es

end

mutual

def stmtEvents : Stmt → List Event
  | .cond test thenBlock elseBlock =>
    exprEvents test ++ .plain 2 :: (blockEvents thenBlock ++ .plain 1 :: blockEvents elseBlock)
  | .loop test body => .openLoop :: (blockEvents body ++ .closeLoop :: (exprEvents test ++ [.plain 1]))
  | .ret none => [.plain 1]
  | .ret (some value) => exprEvents value ++ [.plain 1]
  | .leave => [.leave]
  | .assign _ value => exprEvents value ++ [.plain 1]
  | .function name params body => .openFunction name params :: (blockEvents body ++ [.closeFunction])
  | .call callee args => argsEvents args ++ [.call callee args.length]

def blockEvents : List Stmt → List Event
  | [] => []
  | s :: rest => stmtEvents s ++ blockEvents rest

end

/-! ## Points -/

/-- A function that was declared, and the place where its code begins. -/
structure Declaration where
  name : String
  params : List String
  entry : Nat

/-- What is known of a function body or of the top: how many of its loops are open, and the functions that were declared
in it so far, the latest first. -/
structure Body where
  loops : Nat
  declared : List Declaration

/-- A point on the way: how many instructions come before it, and the bodies that it lies in, from the innermost on. -/
structure Point where
  place : Nat
  body : Body
  around : List Body

namespace Point

def start : Point := ⟨0, ⟨0, []⟩, []⟩

/-- The function that a name refers to: of the innermost body that declares it, the latest declaration. -/
def resolve? (p : Point) (callee : String) : Option Declaration :=
  (p.body :: p.around).findSome? fun b => b.declared.find? (·.name == callee)

/-- The names under which a call passes its parameters. A builtin gets what is supplied, without names. -/
def passed (p : Point) (callee : String) (supplied : Nat) : List (Option String) :=
  match p.resolve? callee with
  | some d => d.params.map some
  | none => List.replicate supplied none

theorem passed_of_some {p : Point} {callee : String} {d : Declaration} (h : p.resolve? callee = some d) (supplied : Nat) :
    p.passed callee supplied = d.params.map some := by
  simp [passed, h]

theorem passed_of_none {p : Point} {callee : String} (h : p.resolve? callee = none) (supplied : Nat) :
    p.passed callee supplied = List.replicate supplied none := by
  simp [passed, h]

def site (p : Point) (callee : String) (supplied : Nat) : CallSite :=
  ⟨callee, (p.passed callee supplied).length, (p.resolve? callee).map (·.entry)⟩

/-- The point behind an event. A jump leads around the code of a function, and a return ends it. -/
def after (p : Point) : Event → Point
  | .plain count => { p with place := p.place + count }
  | .call callee supplied => { p with place := p.place + (p.passed callee supplied).length + 1 }
  | .leave => { p with place := p.place + 1 }
  | .openLoop => ⟨p.place + 1, { p.body with loops := p.body.loops + 1 }, p.around⟩
  | .closeLoop => { p with body := { p.body with loops := p.body.loops - 1 } }
  | .openFunction name params =>
    ⟨p.place + 1, ⟨0, []⟩, { p.body with declared := ⟨name, params, p.place + 1⟩ :: p.body.declared } :: p.around⟩
  | .closeFunction =>
    match p.around with
    | [] => { p with place := p.place + 1 }
    | b :: around => ⟨p.place + 1, b, around⟩

def afterAll (p : Point) (es : List Event) : Point :=
  es.foldl after p

end Point

/-- Events with the points where they are met. -/
def visits (p : Point) : List Event → List (Point × Event)
  | [] => []
  | e :: es => (p, e) :: visits (p.after e) es

/-- All that is met on the way through a program. -/
def programVisits (program : List Stmt) : List (Point × Event) :=
  visits .start (blockEvents program)

/-- What is wrong with an event: a break where no loop is open, or a call with more arguments than its function takes. -/
def fault? : Point × Event → Option GenerateError
  | (p, .leave) => if p.body.loops = 0 then some .breakOutsideLoop else none
  | (p, .call callee supplied) =>
    match p.resolve? callee with
    | some d =>
      if d.params.length < supplied then some (.tooManyArguments callee d.params.length supplied) else none
    | none => none
  | _ => none

/-- A break where no loop of the same body is open, or a call with more arguments than its function takes. -/
def Faulty : Point × Event → Prop
  | (p, .leave) => p.body.loops = 0
  | (p, .call callee supplied) => ∃ d, p.resolve? callee = some d ∧ d.params.length < supplied
  | _ => False

theorem exists_fault?_iff (v : Point × Event) : (∃ cause, fault? v = some cause) ↔ Faulty v := by
  obtain ⟨p, e⟩ := v
  cases e with
  | leave => simp [fault?, Faulty]
  | call callee supplied => cases h : p.resolve? callee <;> simp [fault?, Faulty, h]
  | _ => simp [fault?, Faulty]

theorem fault?_ne_linear (v : Point × Event) (cause : LinearError) : fault? v ≠ some (.linear cause) := by
  obtain ⟨p, e⟩ := v
  cases e with
  | leave => simp [fault?]
  | call callee supplied => cases h : p.resolve? callee <;> simp [fault?, h]
  | _ => simp [fault?]

theorem visits_append (p : Point) (es es' : List Event) :
    visits p (es ++ es') = visits p es ++ visits (p.afterAll es) es' := by
  induction es generalizing p with
  | nil => rfl
  | cons e es ih => rw [List.cons_append, visits, ih]; rfl

theorem Point.afterAll_cons (p : Point) (e : Event) (es : List Event) : p.afterAll (e :: es) = (p.after e).afterAll es :=
  rfl

theorem Point.afterAll_append (p : Point) (es es' : List Event) :
    p.afterAll (es ++ es') = (p.afterAll es).afterAll es' :=
  List.foldl_append

theorem Point.after_closeFunction {p : Point} {b : Body} {around : List Body} (h : p.around = b :: around) :
    p.after .closeFunction = ⟨p.place + 1, b, around⟩ := by
  simp [after, h]

/-! ## What events leave as it was -/

/-- Points in the same bodies. -/
def Point.SameBodies (p q : Point) : Prop :=
  q.body = p.body ∧ q.around = p.around

theorem Point.SameBodies.trans {p q r : Point} (h : p.SameBodies q) (h' : q.SameBodies r) : p.SameBodies r :=
  ⟨h'.1.trans h.1, h'.2.trans h.2⟩

theorem Point.SameBodies.resolve?_eq {p q : Point} (h : p.SameBodies q) : q.resolve? = p.resolve? := by
  funext callee
  rw [resolve?, resolve?, h.1, h.2]

theorem Point.sameBodies_plain (p : Point) (count : Nat) : p.SameBodies (p.after (.plain count)) :=
  ⟨rfl, rfl⟩

theorem Point.sameBodies_call (p : Point) (callee : String) (supplied : Nat) :
    p.SameBodies (p.after (.call callee supplied)) :=
  ⟨rfl, rfl⟩

mutual

theorem sameBodies_exprEvents : (e : Expr) → (p : Point) → p.SameBodies (p.afterAll (exprEvents e))
  | .chain _ operands _, p => by rw [exprEvents]; exact sameBodies_chainEvents operands p
  | .unary _ operand, p => by
      rw [exprEvents, Point.afterAll_append]
      exact (sameBodies_exprEvents operand p).trans (Point.sameBodies_plain ..)
  | .name _, _ => ⟨rfl, rfl⟩
  | .literal _ _, _ => ⟨rfl, rfl⟩
  | .paren inner, p => by rw [exprEvents]; exact sameBodies_exprEvents inner p
  | .call _ args, p => by
      rw [exprEvents, Point.afterAll_append]
      exact (sameBodies_argsEvents args p).trans (Point.sameBodies_call ..)

theorem sameBodies_chainEvents : (es : List Expr) → (p : Point) → p.SameBodies (p.afterAll (chainEvents es))
  | [], _ => ⟨rfl, rfl⟩
  | e :: es, p => by
      rw [chainEvents, Point.afterAll_append]
      exact (sameBodies_exprEvents e p).trans (sameBodies_tailEvents es _)

theorem sameBodies_tailEvents : (es : List Expr) → (p : Point) → p.SameBodies (p.afterAll (tailEvents es))
  | [], _ => ⟨rfl, rfl⟩
  | e :: es, p => by
      rw [tailEvents, Point.afterAll_append]
      exact (sameBodies_exprEvents e p).trans ((Point.sameBodies_plain ..).trans (sameBodies_tailEvents es _))

theorem sameBodies_argsEvents : (es : List Expr) → (p : Point) → p.SameBodies (p.afterAll (argsEvents es))
  | [], _ => ⟨rfl, rfl⟩
  | e :: es, p => by
      rw [argsEvents, Point.afterAll_append]
      exact (sameBodies_exprEvents e p).trans (sameBodies_argsEvents es _)

end

/-- Points with the same loops open, in the same bodies but for what was declared in the innermost one. -/
def Point.SameFrame (p q : Point) : Prop :=
  q.body.loops = p.body.loops ∧ q.around = p.around

theorem Point.SameFrame.trans {p q r : Point} (h : p.SameFrame q) (h' : q.SameFrame r) : p.SameFrame r :=
  ⟨h'.1.trans h.1, h'.2.trans h.2⟩

theorem Point.SameBodies.frame {p q : Point} (h : p.SameBodies q) : p.SameFrame q :=
  ⟨by rw [h.1], h.2⟩

mutual

theorem sameFrame_stmtEvents : (s : Stmt) → (p : Point) → p.SameFrame (p.afterAll (stmtEvents s))
  | .cond test thenBlock elseBlock, p => by
      rw [stmtEvents, Point.afterAll_append, Point.afterAll_cons, Point.afterAll_append, Point.afterAll_cons]
      have htest := ((sameBodies_exprEvents test p).trans (Point.sameBodies_plain _ 2)).frame
      have hthen := (htest.trans (sameFrame_blockEvents thenBlock _)).trans (Point.sameBodies_plain _ 1).frame
      exact hthen.trans (sameFrame_blockEvents elseBlock _)
  | .loop test body, p => by
      rw [stmtEvents, Point.afterAll_cons, Point.afterAll_append, Point.afterAll_cons, Point.afterAll_append]
      obtain ⟨hloops, haround⟩ := sameFrame_blockEvents body (p.after .openLoop)
      have hclose : p.SameFrame (((p.after .openLoop).afterAll (blockEvents body)).after .closeLoop) :=
        ⟨congrArg (· - 1) hloops, haround⟩
      exact hclose.trans ((sameBodies_exprEvents test _).trans (Point.sameBodies_plain ..)).frame
  | .ret none, _ => ⟨rfl, rfl⟩
  | .ret (some value), p => by
      rw [stmtEvents, Point.afterAll_append]
      exact ((sameBodies_exprEvents value p).trans (Point.sameBodies_plain ..)).frame
  | .leave, _ => ⟨rfl, rfl⟩
  | .assign _ value, p => by
      rw [stmtEvents, Point.afterAll_append]
      exact ((sameBodies_exprEvents value p).trans (Point.sameBodies_plain ..)).frame
  | .function name params body, p => by
      rw [stmtEvents, Point.afterAll_cons, Point.afterAll_append]
      obtain ⟨-, haround⟩ := sameFrame_blockEvents body (p.after (.openFunction name params))
      rw [Point.afterAll_cons, Point.after_closeFunction haround]
      exact ⟨rfl, rfl⟩
  | .call _ args, p => by
      rw [stmtEvents, Point.afterAll_append]
      exact ((sameBodies_argsEvents args p).trans (Point.sameBodies_call ..)).frame

theorem sameFrame_blockEvents : (stmts : List Stmt) → (p : Point) → p.SameFrame (p.afterAll (blockEvents stmts))
  | [], _ => ⟨rfl, rfl⟩
  | s :: rest, p => by
      rw [blockEvents, Point.afterAll_append]
      exact (sameFrame_stmtEvents s p).trans (sameFrame_blockEvents rest _)

end

/-! ## Names known to the generator -/

section Knowledge

variable {R : Signature → Declaration → Prop} {names : Names} {p q : Point}

/-- A scope lists the functions that were declared in a body. -/
def ScopeKnows (R : Signature → Declaration → Prop) (scope : Scope) (b : Body) : Prop :=
  List.Forall₂ (fun entry d => entry.1 = d.name ∧ R entry.2 d) scope b.declared

/-- What the generator knows is what was declared on the way. -/
structure Knows (R : Signature → Declaration → Prop) (names : Names) (p : Point) : Prop where
  current : ScopeKnows R names.current p.body
  enclosing : List.Forall₂ (ScopeKnows R) names.enclosing p.around

theorem knows_start : Knows R .initial .start :=
  ⟨.nil, .nil⟩

theorem ScopeKnows.lookup {scope : Scope} {b : Body} (h : ScopeKnows R scope b) (callee : String) :
    Option.Rel R (scope.lookup callee) (b.declared.find? (·.name == callee)) := by
  rw [ScopeKnows] at h
  generalize b.declared = declared at h
  induction h with
  | nil => exact .none
  | @cons entry d scope declared hd _ ih =>
      obtain ⟨hname, hR⟩ := hd
      rw [List.lookup_cons, List.find?_cons, hname, Bool.beq_comm]
      cases d.name == callee with
      | true => exact .some hR
      | false => exact ih

theorem findSome?_knows {scopes : List Scope} {bodies : List Body} (h : List.Forall₂ (ScopeKnows R) scopes bodies)
    (callee : String) :
    Option.Rel R (scopes.findSome? (·.lookup callee))
      (bodies.findSome? fun b => b.declared.find? (·.name == callee)) := by
  induction h with
  | nil => exact .none
  | @cons scope b _ _ hscope _ ih =>
      have hfound := hscope.lookup callee
      rw [List.findSome?_cons, List.findSome?_cons]
      generalize scope.lookup callee = found, b.declared.find? (·.name == callee) = d at hfound
      cases hfound with
      | some hR => exact .some hR
      | none => exact ih

/-- Names are resolved to the functions that are declared at a point. -/
def Finds (R : Signature → Declaration → Prop) (find : String → Option Signature) (p : Point) : Prop :=
  ∀ callee, Option.Rel R (find callee) (p.resolve? callee)

theorem Finds.sameBodies {find : String → Option Signature} (h : Finds R find p) (hq : p.SameBodies q) :
    Finds R find q := by
  intro callee
  rw [hq.resolve?_eq]
  exact h callee

theorem Knows.find (h : Knows R names p) : Finds R names.find? p :=
  findSome?_knows (.cons h.current h.enclosing)

theorem Knows.sameBodies (h : Knows R names p) (hq : p.SameBodies q) {temps : Nat} : Knows R { names with temps } q :=
  ⟨hq.1 ▸ h.current, hq.2 ▸ h.enclosing⟩

theorem Knows.openLoop (h : Knows R names p) : Knows R names (p.after .openLoop) :=
  ⟨h.current, h.enclosing⟩

theorem Knows.closeLoop (h : Knows R names p) : Knows R names (p.after .closeLoop) :=
  ⟨h.current, h.enclosing⟩

theorem Knows.enter (h : Knows R names p) {name : String} {params : List String} {signature : Signature}
    (hR : R signature ⟨name, params, p.place + 1⟩) :
    Knows R (names.declare name signature).enter (p.after (.openFunction name params)) :=
  ⟨.nil, .cons (.cons ⟨rfl, hR⟩ h.current) h.enclosing⟩

theorem Knows.declare (h : Knows R names p) {name : String} {params : List String} {signature : Signature}
    (hR : R signature ⟨name, params, p.place + 1⟩) {body : List Stmt} {temps : Nat} :
    Knows R { names.declare name signature with temps } (p.afterAll (stmtEvents (.function name params body))) := by
  rw [stmtEvents, Point.afterAll_cons, Point.afterAll_append]
  obtain ⟨-, haround⟩ := sameFrame_blockEvents body (p.after (.openFunction name params))
  rw [Point.afterAll_cons, Point.after_closeFunction haround]
  exact ⟨.cons ⟨rfl, hR⟩ h.current, h.enclosing⟩

end Knowledge

end Ir

end Scriptlet
