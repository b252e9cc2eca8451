import Mathlib.Tactic
import Scriptlet.Proofs.Ir.Events
import Scriptlet.Proofs.Ir.Generation

/-!
# Why programs have no code

Generating code fails exactly at the first fault on the way through the program.
-/

namespace Scriptlet.Ir

/-! ## The first fault -/

section Faults

variable {p : Point} {e : Event} {es es' : List Event} {cause : GenerateError}

def firstFault (p : Point) (es : List Event) : Option GenerateError :=
  (visits p es).findSome? fault?

theorem firstFault_cons (h : fault? (p, e) = none) : firstFault p (e :: es) = firstFault (p.after e) es := by
  rw [firstFault, visits, List.findSome?_cons, h]
  rfl

theorem firstFault_append (p : Point) (es es' : List Event) :
    firstFault p (es ++ es') = (firstFault p es).or (firstFault (p.afterAll es) es') := by
  rw [firstFault, visits_append, List.findSome?_append]
  rfl

theorem firstFault_append_of_none (h : firstFault p es = none) :
    firstFault p (es ++ es') = firstFault (p.afterAll es) es' := by
  rw [firstFault_append, h, Option.none_or]

theorem firstFault_append_of_some (h : firstFault p es = some cause) : firstFault p (es ++ es') = some cause := by
  rw [firstFault_append, h, Option.some_or]

end Faults

/-! ## Expressions -/

section Expressions

variable {find : String → Option Signature}

def SameParams (signature : Signature) (d : Declaration) : Prop :=
  d.params = signature.params

/-- A call is faulty if it has no code. -/
theorem firstFault_call {p : Point} (hfind : Finds SameParams find p) (callee : String) (xs : List String) :
    firstFault p [.call callee xs.length]
      = match callCode find callee xs with
        | .ok _ => none
        | .error cause => some cause := by
  have hcallee := hfind callee
  rw [callCode]
  generalize hs : find callee = found, hd : p.resolve? callee = d at hcallee
  cases hcallee with
  | none => simp [firstFault, visits, fault?, hd]
  | @some signature d hparams =>
      rw [SameParams] at hparams
      by_cases hlt : signature.params.length < xs.length
      · simp [firstFault, visits, fault?, hd, hparams, hlt]
      · simp [firstFault, visits, fault?, hd, hparams, hlt]

mutual

theorem faultless_expr {e : Expr} {p : Point} {temps temps' : Nat} {code : Code} {x : String} :
    ExprEmits find e temps code x temps' → e.joined = true → Finds SameParams find p →
    firstFault p (exprEvents e) = none
  | .chainNil, _, _ => rfl
  | .chain (e := e) hfirst hrest, hjoined, hfind => by
      obtain ⟨hlength, he, hes⟩ := Expr.joined_chain_cons.1 hjoined
      rw [exprEvents, chainEvents, firstFault_append_of_none (faultless_expr hfirst he hfind)]
      exact faultless_chain hrest hlength hes (hfind.sameBodies (sameBodies_exprEvents e p))
  | .unary hfirst, hjoined, hfind => by
      rw [Expr.joined] at hjoined
      rw [exprEvents, firstFault_append_of_none (faultless_expr hfirst hjoined hfind)]
      rfl
  | .name, _, _ => rfl
  | .literal, _, _ => rfl
  | .paren hinner, hjoined, hfind => by
      rw [Expr.joined] at hjoined
      rw [exprEvents]
      exact faultless_expr hinner hjoined hfind
  | .call hargs hcall, hjoined, hfind => by
      rw [Expr.joined] at hjoined
      rw [exprEvents, firstFault_append_of_none (faultless_args hargs hjoined hfind), ← hargs.length_eq,
        firstFault_call (hfind.sameBodies (sameBodies_argsEvents _ p)), hcall]

theorem faultless_chain {es : List Expr} {ops : List BinaryOp} {p : Point} {temps temps' : Nat} {code : Code}
    {x y : String} :
    ChainEmits find es ops y temps code x temps' → es.length = ops.length → Expr.allJoined es = true →
    Finds SameParams find p → firstFault p (tailEvents es) = none
  | .stop hstop, hlength, _, _ => by
      obtain rfl : es = [] := hstop.elim id fun hops => List.eq_nil_of_length_eq_zero (hlength.trans (by rw [hops]; rfl))
      rfl
  | .cons (e := e) hfirst hrest, hlength, hjoined, hfind => by
      rw [Expr.allJoined, Bool.and_eq_true] at hjoined
      have hbodies := (sameBodies_exprEvents e p).trans (Point.sameBodies_plain _ 1)
      rw [tailEvents, firstFault_append_of_none (faultless_expr hfirst hjoined.1 hfind), firstFault_cons rfl]
      exact faultless_chain hrest (Nat.succ.inj hlength) hjoined.2 (hfind.sameBodies hbodies)

theorem faultless_args {es : List Expr} {p : Point} {temps temps' : Nat} {code : Code} {xs : List String} :
    ArgsEmits find es temps code xs temps' → Expr.allJoined es = true → Finds SameParams find p →
    firstFault p (argsEvents es) = none
  | .nil, _, _ => rfl
  | .cons hfirst hrest, hjoined, hfind => by
      rw [Expr.allJoined, Bool.and_eq_true] at hjoined
      rw [argsEvents, firstFault_append_of_none (faultless_expr hfirst hjoined.1 hfind)]
      exact faultless_args hrest hjoined.2 (hfind.sameBodies (sameBodies_exprEvents _ p))

end

mutual

theorem fault_expr {e : Expr} {p : Point} {temps : Nat} {cause : GenerateError} :
    ExprFails find e temps cause → e.joined = true → Finds SameParams find p →
    firstFault p (exprEvents e) = some cause
  | .chainFirst hfirst, hjoined, hfind => by
      obtain ⟨-, he, -⟩ := Expr.joined_chain_cons.1 hjoined
      rw [exprEvents, chainEvents]
      exact firstFault_append_of_some (fault_expr hfirst he hfind)
  | .chainRest (e := e) hfirst hrest, hjoined, hfind => by
      obtain ⟨hlength, he, hes⟩ := Expr.joined_chain_cons.1 hjoined
      rw [exprEvents, chainEvents, firstFault_append_of_none (faultless_expr hfirst he hfind)]
      exact fault_chain hrest hes (hfind.sameBodies (sameBodies_exprEvents e p))
  | .unary hfirst, hjoined, hfind => by
      rw [Expr.joined] at hjoined
      rw [exprEvents]
      exact firstFault_append_of_some (fault_expr hfirst hjoined hfind)
  | .paren hinner, hjoined, hfind => by
      rw [Expr.joined] at hjoined
      rw [exprEvents]
      exact fault_expr hinner hjoined hfind
  | .callArgs hargs, hjoined, hfind => by
      rw [Expr.joined] at hjoined
      rw [exprEvents]
      exact firstFault_append_of_some (fault_args hargs hjoined hfind)
  | .call hargs hcall, hjoined, hfind => by
      rw [Expr.joined] at hjoined
      rw [exprEvents, firstFault_append_of_none (faultless_args hargs hjoined hfind), ← hargs.length_eq,
        firstFault_call (hfind.sameBodies (sameBodies_argsEvents _ p)), hcall]

theorem fault_chain {es : List Expr} {ops : List BinaryOp} {p : Point} {temps : Nat} {cause : GenerateError} :
    ChainFails find es ops temps cause → Expr.allJoined es = true → Finds SameParams find p →
    firstFault p (tailEvents es) = some cause
  | .first hfirst, hjoined, hfind => by
      rw [Expr.allJoined, Bool.and_eq_true] at hjoined
      rw [tailEvents]
      exact firstFault_append_of_some (fault_expr hfirst hjoined.1 hfind)
  | .rest (e := e) hfirst hrest, hjoined, hfind => by
      rw [Expr.allJoined, Bool.and_eq_true] at hjoined
      have hbodies := (sameBodies_exprEvents e p).trans (Point.sameBodies_plain _ 1)
      rw [tailEvents, firstFault_append_of_none (faultless_expr hfirst hjoined.1 hfind), firstFault_cons rfl]
      exact fault_chain hrest hjoined.2 (hfind.sameBodies hbodies)

theorem fault_args {es : List Expr} {p : Point} {temps : Nat} {cause : GenerateError} :
    ArgsFails find es temps cause → Expr.allJoined es = true → Finds SameParams find p →
    firstFault p (argsEvents es) = some cause
  | .first hfirst, hjoined, hfind => by
      rw [Expr.allJoined, Bool.and_eq_true] at hjoined
      rw [argsEvents]
      exact firstFault_append_of_some (fault_expr hfirst hjoined.1 hfind)
  | .rest (e := e) hfirst hrest, hjoined, hfind => by
      rw [Expr.allJoined, Bool.and_eq_true] at hjoined
      rw [argsEvents, firstFault_append_of_none (faultless_expr hfirst hjoined.1 hfind)]
      exact fault_args hrest hjoined.2 (hfind.sameBodies (sameBodies_exprEvents e p))

end

end Expressions

/-! ## Statements -/

theorem Names.Emits.faultless {names names' : Names} {e : Expr} {p : Point} {code : Code} {x : String}
    (h : names.Emits e code x names') (hjoined : e.joined = true) (hknows : Knows SameParams names p) :
    firstFault p (exprEvents e) = none ∧ Knows SameParams names' (p.afterAll (exprEvents e)) := by
  obtain ⟨temps, hemits, rfl⟩ := h
  exact ⟨faultless_expr hemits hjoined hknows.find, hknows.sameBodies (sameBodies_exprEvents e p)⟩

theorem Point.SameFrame.inLoop {p q : Point} (h : p.SameFrame q) {inLoop : Bool} (hloop : inLoop = (p.body.loops != 0)) :
    inLoop = (q.body.loops != 0) := by
  rw [hloop, h.1]

theorem Point.sameFrame_thenBlock (p : Point) (test : Expr) :
    p.SameFrame ((p.afterAll (exprEvents test)).after (.plain 2)) :=
  ((sameBodies_exprEvents test p).trans (Point.sameBodies_plain _ 2)).frame

theorem Point.sameFrame_elseBlock (p : Point) (test : Expr) (thenBlock : List Stmt) :
    p.SameFrame ((((p.afterAll (exprEvents test)).after (.plain 2)).afterAll (blockEvents thenBlock)).after (.plain 1)) :=
  ((p.sameFrame_thenBlock test).trans (sameFrame_blockEvents thenBlock _)).trans (Point.sameBodies_plain _ 1).frame

mutual

theorem faultless_stmt {s : Stmt} {inLoop : Bool} {start : Nat} {names names' : Names} {p : Point}
    {drafts : List Draft} :
    StmtEmits s inLoop start names drafts names' → s.joined = true → Knows SameParams names p →
    inLoop = (p.body.loops != 0) →
    firstFault p (stmtEvents s) = none ∧ Knows SameParams names' (p.afterAll (stmtEvents s))
  | @StmtEmits.cond test thenBlock _ _ _ _ _ _ _ _ _ _ _ _ _ _ htest _ hthen _ helse _, hjoined, hknows, hloop => by
      simp only [Stmt.joined, Bool.and_eq_true] at hjoined
      obtain ⟨htestNone, hknows₁⟩ := htest.faultless hjoined.1.1 hknows
      obtain ⟨hthenNone, hknows₂⟩ := faultless_block hthen hjoined.1.2 (hknows₁.sameBodies (Point.sameBodies_plain _ 2))
        ((p.sameFrame_thenBlock test).inLoop hloop)
      obtain ⟨helseNone, hknows₃⟩ := faultless_block helse hjoined.2 (hknows₂.sameBodies (Point.sameBodies_plain _ 1))
        ((p.sameFrame_elseBlock test thenBlock).inLoop hloop)
      rw [stmtEvents, firstFault_append_of_none htestNone, firstFault_cons rfl, firstFault_append_of_none hthenNone,
        firstFault_cons rfl]
      simp only [Point.afterAll_append, Point.afterAll_cons]
      exact ⟨helseNone, hknows₃⟩
  | .loop hbody _ htest _, hjoined, hknows, _ => by
      simp only [Stmt.joined, Bool.and_eq_true] at hjoined
      obtain ⟨hbodyNone, hknows₁⟩ := faultless_block hbody hjoined.2 hknows.openLoop (by simp [Point.after])
      obtain ⟨htestNone, hknows₂⟩ := htest.faultless hjoined.1 hknows₁.closeLoop
      rw [stmtEvents, firstFault_cons rfl, firstFault_append_of_none hbodyNone, firstFault_cons rfl,
        firstFault_append_of_none htestNone]
      simp only [Point.afterAll_append, Point.afterAll_cons]
      exact ⟨rfl, hknows₂.sameBodies (Point.sameBodies_plain _ 1)⟩
  | .retNone, _, hknows, _ => ⟨rfl, hknows.sameBodies (Point.sameBodies_plain _ 1)⟩
  | .ret hvalue, hjoined, hknows, _ => by
      rw [Stmt.joined] at hjoined
      obtain ⟨hnone, hknows₁⟩ := hvalue.faultless hjoined hknows
      rw [stmtEvents, firstFault_append_of_none hnone, Point.afterAll_append]
      exact ⟨rfl, hknows₁.sameBodies (Point.sameBodies_plain _ 1)⟩
  | .leave, _, hknows, hloop => by
      have hloops : p.body.loops ≠ 0 := by simpa using hloop
      exact ⟨by simp [firstFault, visits, fault?, stmtEvents, hloops], hknows.current, hknows.enclosing⟩
  | .assign hvalue, hjoined, hknows, _ => by
      rw [Stmt.joined] at hjoined
      obtain ⟨hnone, hknows₁⟩ := hvalue.faultless hjoined hknows
      rw [stmtEvents, firstFault_append_of_none hnone, Point.afterAll_append]
      exact ⟨rfl, hknows₁.sameBodies (Point.sameBodies_plain _ 1)⟩
  | .function hbody _, hjoined, hknows, _ => by
      rw [Stmt.joined] at hjoined
      obtain ⟨hnone, -⟩ := faultless_block hbody hjoined (hknows.enter rfl) rfl
      refine ⟨?_, hknows.declare rfl⟩
      rw [stmtEvents, firstFault_cons rfl, firstFault_append_of_none hnone]
      rfl
  | @StmtEmits.call _ args _ _ _ _ _ _ _ _ hargs hcall, hjoined, hknows, _ => by
      rw [Stmt.joined] at hjoined
      have hbodies := sameBodies_argsEvents args p
      rw [stmtEvents, firstFault_append_of_none (faultless_args hargs hjoined hknows.find), Point.afterAll_append,
        ← hargs.length_eq, firstFault_call (hknows.find.sameBodies hbodies), hcall]
      exact ⟨rfl, hknows.sameBodies (hbodies.trans (Point.sameBodies_call ..))⟩

theorem faultless_block {stmts : List Stmt} {inLoop : Bool} {start : Nat} {names names' : Names} {p : Point}
    {drafts : List Draft} :
    BlockEmits stmts inLoop start names drafts names' → Stmt.allJoined stmts = true → Knows SameParams names p →
    inLoop = (p.body.loops != 0) →
    firstFault p (blockEvents stmts) = none ∧ Knows SameParams names' (p.afterAll (blockEvents stmts))
  | .nil, _, hknows, _ => ⟨rfl, hknows⟩
  | .cons hfirst hmore, hjoined, hknows, hloop => by
      rw [Stmt.allJoined, Bool.and_eq_true] at hjoined
      obtain ⟨hnone, hknows₁⟩ := faultless_stmt hfirst hjoined.1 hknows hloop
      rw [blockEvents, firstFault_append_of_none hnone, Point.afterAll_append]
      exact faultless_block hmore hjoined.2 hknows₁ ((sameFrame_stmtEvents _ p).inLoop hloop)

end

mutual

theorem fault_stmt {s : Stmt} {inLoop : Bool} {start : Nat} {names : Names} {p : Point} {cause : GenerateError} :
    StmtFails s inLoop start names cause → s.joined = true → Knows SameParams names p →
    inLoop = (p.body.loops != 0) → firstFault p (stmtEvents s) = some cause
  | .condTest htest, hjoined, hknows, _ => by
      simp only [Stmt.joined, Bool.and_eq_true] at hjoined
      rw [stmtEvents]
      exact firstFault_append_of_some (fault_expr htest hjoined.1.1 hknows.find)
  | @StmtFails.condThen test _ _ _ _ _ _ _ _ _ htest hthen, hjoined, hknows, hloop => by
      simp only [Stmt.joined, Bool.and_eq_true] at hjoined
      obtain ⟨htestNone, hknows₁⟩ := htest.faultless hjoined.1.1 hknows
      rw [stmtEvents, firstFault_append_of_none htestNone, firstFault_cons rfl]
      exact firstFault_append_of_some (fault_block hthen hjoined.1.2
        (hknows₁.sameBodies (Point.sameBodies_plain _ 2)) ((p.sameFrame_thenBlock test).inLoop hloop))
  | @StmtFails.condElse test thenBlock _ _ _ _ _ _ _ _ _ _ _ htest _ hthen helse, hjoined, hknows, hloop => by
      simp only [Stmt.joined, Bool.and_eq_true] at hjoined
      obtain ⟨htestNone, hknows₁⟩ := htest.faultless hjoined.1.1 hknows
      obtain ⟨hthenNone, hknows₂⟩ := faultless_block hthen hjoined.1.2 (hknows₁.sameBodies (Point.sameBodies_plain _ 2))
        ((p.sameFrame_thenBlock test).inLoop hloop)
      rw [stmtEvents, firstFault_append_of_none htestNone, firstFault_cons rfl, firstFault_append_of_none hthenNone,
        firstFault_cons rfl]
      exact fault_block helse hjoined.2 (hknows₂.sameBodies (Point.sameBodies_plain _ 1))
        ((p.sameFrame_elseBlock test thenBlock).inLoop hloop)
  | .loopBody hbody, hjoined, hknows, _ => by
      simp only [Stmt.joined, Bool.and_eq_true] at hjoined
      rw [stmtEvents, firstFault_cons rfl]
      exact firstFault_append_of_some (fault_block hbody hjoined.2 hknows.openLoop (by simp [Point.after]))
  | .loopTest hbody htest, hjoined, hknows, _ => by
      simp only [Stmt.joined, Bool.and_eq_true] at hjoined
      obtain ⟨hbodyNone, hknows₁⟩ := faultless_block hbody hjoined.2 hknows.openLoop (by simp [Point.after])
      rw [stmtEvents, firstFault_cons rfl, firstFault_append_of_none hbodyNone, firstFault_cons rfl]
      exact firstFault_append_of_some (fault_expr htest hjoined.1 hknows₁.closeLoop.find)
  | .ret hvalue, hjoined, hknows, _ => by
      rw [Stmt.joined] at hjoined
      rw [stmtEvents]
      exact firstFault_append_of_some (fault_expr hvalue hjoined hknows.find)
  | .leave, _, _, hloop => by
      have hloops : p.body.loops = 0 := by simpa using hloop
      simp [firstFault, visits, fault?, stmtEvents, hloops]
  | .assign hvalue, hjoined, hknows, _ => by
      rw [Stmt.joined] at hjoined
      rw [stmtEvents]
      exact firstFault_append_of_some (fault_expr hvalue hjoined hknows.find)
  | .function hbody, hjoined, hknows, _ => by
      rw [Stmt.joined] at hjoined
      rw [stmtEvents, firstFault_cons rfl]
      exact firstFault_append_of_some (fault_block hbody hjoined (hknows.enter rfl) rfl)
  | .callArgs hargs, hjoined, hknows, _ => by
      rw [Stmt.joined] at hjoined
      rw [stmtEvents]
      exact firstFault_append_of_some (fault_args hargs hjoined hknows.find)
  | .call hargs hcall, hjoined, hknows, _ => by
      rw [Stmt.joined] at hjoined
      rw [stmtEvents, firstFault_append_of_none (faultless_args hargs hjoined hknows.find), ← hargs.length_eq,
        firstFault_call (hknows.find.sameBodies (sameBodies_argsEvents _ p)), hcall]

theorem fault_block {stmts : List Stmt} {inLoop : Bool} {start : Nat} {names : Names} {p : Point}
    {cause : GenerateError} :
    BlockFails stmts inLoop start names cause → Stmt.allJoined stmts = true → Knows SameParams names p →
    inLoop = (p.body.loops != 0) → firstFault p (blockEvents stmts) = some cause
  | .first hfirst, hjoined, hknows, hloop => by
      rw [Stmt.allJoined, Bool.and_eq_true] at hjoined
      rw [blockEvents]
      exact firstFault_append_of_some (fault_stmt hfirst hjoined.1 hknows hloop)
  | .rest hfirst hmore, hjoined, hknows, hloop => by
      rw [Stmt.allJoined, Bool.and_eq_true] at hjoined
      obtain ⟨hnone, hknows₁⟩ := faultless_stmt hfirst hjoined.1 hknows hloop
      rw [blockEvents, firstFault_append_of_none hnone]
      exact fault_block hmore hjoined.2 hknows₁ ((sameFrame_stmtEvents _ p).inLoop hloop)

end

end Scriptlet.Ir
