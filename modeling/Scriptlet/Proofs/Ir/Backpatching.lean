import Mathlib.Tactic
import Scriptlet.Ir.Generator
import Scriptlet.Proofs.Ir.Generation

/-!
# Code with patched targets

A generator writes jumps before it knows where they go and puts the targets in place later. The code that it ends up with
is the code that is laid out with all targets known.
-/

namespace Scriptlet.Ir

namespace Generator

/-- The function that a name refers to. -/
def find? (g : Generator) (name : String) : Option Signature :=
  g.scopes.findSome? fun scope => scope.lookup name

/-- The generator after code without open jumps. -/
def wrote (g : Generator) (code : Code) (temps : Nat) : Generator :=
  { g with code := g.code ++ code, temps }

variable (g : Generator)

@[simp]
theorem find?_wrote (code : Code) (temps : Nat) : (g.wrote code temps).find? = g.find? :=
  rfl

@[simp]
theorem temps_wrote (code : Code) (temps : Nat) : (g.wrote code temps).temps = temps :=
  rfl

@[simp]
theorem wrote_wrote (code more : Code) (temps temps' : Nat) :
    (g.wrote code temps).wrote more temps' = g.wrote (code ++ more) temps' := by
  simp only [wrote, List.append_assoc]

theorem wrote_nil : g.wrote [] g.temps = g := by
  simp only [wrote, List.append_nil]

/-- The generator after the code of an expression, and the operand that holds its value. -/
def written {α : Type} (r : Code × α × Nat) : α × Generator :=
  (r.2.1, g.wrote r.1 r.2.2)

end Generator

namespace Generation

variable (g : Generator)

theorem run_emit (i : Instruction) : (emit i).run g = .ok (g.code.length, g.wrote [i] g.temps) :=
  rfl

theorem run_compute (rhs : Rhs) :
    (compute rhs).run g = .ok (temp g.temps, g.wrote [.assign (temp g.temps) rhs] (g.temps + 1)) :=
  rfl

/-! ## Expressions -/

theorem run_pass (xs : List String) : (pass xs).run g = .ok ((), g.wrote (xs.map (.param · none)) g.temps) := by
  induction xs generalizing g with
  | nil => rw [List.map_nil, Generator.wrote_nil]; rfl
  | cons x xs ih =>
      refine run_step (run_emit g _) ((ih _).trans ?_)
      rw [Generator.wrote_wrote]
      rfl

theorem run_passNamed (ps xs : List String) (h : xs.length ≤ ps.length) :
    (passNamed ps xs).run g
      = .ok ((), g.wrote (List.zipWith (fun p x => .param x (some p)) ps
          (xs ++ List.replicate (ps.length - xs.length) missing)) g.temps) := by
  induction ps generalizing g xs with
  | nil => rw [List.zipWith_nil_left, Generator.wrote_nil]; rfl
  | cons p ps ih =>
      cases xs with
      | nil =>
          refine run_step (run_emit g _) ((ih _ [] (Nat.zero_le _)).trans ?_)
          rw [Generator.wrote_wrote]
          rfl
      | cons x xs =>
          refine run_step (run_emit g _) ((ih _ xs (Nat.le_of_succ_le_succ h)).trans ?_)
          rw [Generator.wrote_wrote, List.length_cons, List.length_cons, Nat.add_sub_add_right]
          rfl

theorem run_call (callee : String) (args : List String) :
    (call callee args).run g
      = (callCode g.find? callee args).map fun (params, site) => (site, g.wrote params g.temps) := by
  have hfind : (find? callee).run g = .ok (g.find? callee, g) := rfl
  rw [call, callCode]
  refine run_step hfind ?_
  cases g.find? callee with
  | none => exact run_step (run_pass g args) rfl
  | some signature =>
      obtain ⟨params, entry⟩ := signature
      by_cases h : params.length < args.length
      · simp only [if_pos h]
        rfl
      · simp only [if_neg h]
        exact run_step (run_passNamed g params args (Nat.le_of_not_lt h)) rfl

theorem run_unary (ops : List UnaryOp) (x : String) :
    (unary ops x).run g = .ok (g.written (unaryCode ops x g.temps)) := by
  induction ops generalizing g x with
  | nil => rw [unaryCode, Generator.written, Generator.wrote_nil]; rfl
  | cons op ops ih =>
      refine run_step (run_compute g _) ((ih _ _).trans ?_)
      rw [Generator.written, Generator.wrote_wrote]
      rfl

mutual

theorem run_expr (g : Generator) : (e : Expr) → (expr e).run g = (exprCode g.find? e g.temps).map g.written
  | .chain _ [] _ => by
      rw [expr, exprCode]
      exact congrArg (fun g => Except.ok (missing, g)) g.wrote_nil.symm
  | .chain _ (e :: es) ops => by
      rw [expr, exprCode]
      refine run_andThen (run_expr g e) ?_
      rintro ⟨first, y, mid⟩ -
      refine run_last (run_chain _ es ops y) ?_
      rintro ⟨rest, z, last⟩
      exact congrArg (fun g => Except.ok (z, g)) (g.wrote_wrote first rest mid last).symm
  | .unary ops operand => by
      rw [expr, exprCode]
      refine run_andThen (run_expr g operand) ?_
      rintro ⟨first, y, mid⟩ -
      exact (run_unary _ ops y).trans (congrArg (fun g => Except.ok (_, g)) (g.wrote_wrote ..))
  | .name id => by
      rw [expr, exprCode]
      exact run_compute g _
  | .literal _ text => by
      rw [expr, exprCode]
      exact run_compute g _
  | .paren inner => by
      rw [expr, exprCode]
      exact run_expr g inner
  | .call callee args => by
      rw [expr, exprCode]
      refine run_andThen (run_exprs g args) ?_
      rintro ⟨first, xs, mid⟩ -
      refine run_andThen (run_call _ callee xs) ?_
      rintro ⟨params, site⟩ -
      refine (run_compute _ _).trans (congrArg (fun g => Except.ok (_, g)) ?_)
      simp [Generator.written]

theorem run_chain (g : Generator) : (es : List Expr) → (ops : List BinaryOp) → (x : String) →
    (chain es ops x).run g = (chainCode g.find? es ops x g.temps).map g.written
  | [], ops, x => by
      rw [chain, chainCode]
      · exact congrArg (fun g => Except.ok (x, g)) g.wrote_nil.symm
      all_goals simp
  | e :: es, [], x => by
      rw [chain, chainCode]
      · exact congrArg (fun g => Except.ok (x, g)) g.wrote_nil.symm
      all_goals simp
  | e :: es, op :: ops, x => by
      rw [chain, chainCode]
      refine run_andThen (run_expr g e) ?_
      rintro ⟨first, y, mid⟩ -
      refine run_step (run_compute _ _) (run_last (run_chain _ es ops _) ?_)
      rintro ⟨rest, z, last⟩
      refine congrArg (fun g => Except.ok (z, g)) ?_
      simp [Generator.written]

theorem run_exprs (g : Generator) : (es : List Expr) → (exprs es).run g = (argsCode g.find? es g.temps).map g.written
  | [] => by
      rw [exprs, argsCode]
      exact congrArg (fun g => Except.ok ([], g)) g.wrote_nil.symm
  | e :: es => by
      rw [exprs, argsCode]
      refine run_andThen (run_expr g e) ?_
      rintro ⟨first, y, mid⟩ -
      refine run_andThen (run_exprs _ es) ?_
      rintro ⟨rest, ys, last⟩ -
      exact congrArg (fun g => Except.ok (y :: ys, g)) (g.wrote_wrote first rest mid last)

end

end Generation

/-! ## Open jumps -/

/-- The places of the jumps out of the loop around some code. -/
def leaves (start : Nat) : List Draft → List Nat
  | [] => []
  | .done _ :: drafts => leaves (start + 1) drafts
  | .leave :: drafts => start :: leaves (start + 1) drafts

@[simp]
theorem leaves_append (start : Nat) (drafts more : List Draft) :
    leaves start (drafts ++ more) = leaves start drafts ++ leaves (start + drafts.length) more := by
  induction drafts generalizing start with
  | nil => rfl
  | cons draft drafts ih =>
      cases draft <;> simp [leaves, ih, Nat.add_assoc, Nat.add_comm 1]

@[simp]
theorem leaves_complete (start : Nat) (code : Code) : leaves start (complete code) = [] := by
  induction code generalizing start with
  | nil => rfl
  | cons i code ih => exact ih (start + 1)

@[simp]
theorem leaves_padded (start : Nat) (drafts : List Draft) : leaves start (padded drafts) = leaves start drafts := by
  cases drafts <;> rfl

mutual

/-- Outside of loops there are no jumps out of one. -/
theorem StmtEmits.leaves_eq_nil {s : Stmt} {start : Nat} {names names' : Names} {drafts : List Draft} :
    StmtEmits s false start names drafts names' → ∀ place, leaves place drafts = []
  | .cond _ _ hthen _ helse _, place => by
      simp only [leaves_append, leaves_complete, leaves_padded, hthen.leaves_eq_nil, helse.leaves_eq_nil,
        List.append_nil]
  | .loop _ _ _ _, place => leaves_complete place _
  | .retNone, place => leaves_complete place _
  | .ret _, place => leaves_complete place _
  | .assign _, place => leaves_complete place _
  | .function hbody _, place => by
      simp only [leaves_append, leaves_complete, hbody.leaves_eq_nil, List.append_nil]
  | .call _ _, place => leaves_complete place _

theorem BlockEmits.leaves_eq_nil {stmts : List Stmt} {start : Nat} {names names' : Names} {drafts : List Draft} :
    BlockEmits stmts false start names drafts names' → ∀ place, leaves place drafts = []
  | .nil, _ => rfl
  | .cons hfirst hmore, place => by
      rw [leaves_append, hfirst.leaves_eq_nil, hmore.leaves_eq_nil, List.append_nil]

end

mutual

/-- Statements declare functions in the current scope only. -/
theorem StmtEmits.enclosing_eq {s : Stmt} {inLoop : Bool} {start : Nat} {names names' : Names} {drafts : List Draft} :
    StmtEmits s inLoop start names drafts names' → names'.enclosing = names.enclosing
  | .cond ⟨_, _, hnames⟩ _ hthen _ helse _ => by rw [helse.enclosing_eq, hthen.enclosing_eq, hnames]
  | .loop hbody _ ⟨_, _, hnames⟩ _ => by rw [hnames, ← hbody.enclosing_eq]
  | .retNone => rfl
  | .ret ⟨_, _, hnames⟩ => by rw [hnames]
  | .leave => rfl
  | .assign ⟨_, _, hnames⟩ => by rw [hnames]
  | .function _ _ => rfl
  | .call _ _ => rfl

theorem BlockEmits.enclosing_eq {stmts : List Stmt} {inLoop : Bool} {start : Nat} {names names' : Names}
    {drafts : List Draft} :
    BlockEmits stmts inLoop start names drafts names' → names'.enclosing = names.enclosing
  | .nil => rfl
  | .cons hfirst hmore => hmore.enclosing_eq.trans hfirst.enclosing_eq

end

/-- Notes jumps out of the innermost loop. -/
def note (places : List Nat) : List (List Nat) → List (List Nat)
  | [] => []
  | exits :: outer => (exits ++ places) :: outer

@[simp]
theorem note_nil (exits : List (List Nat)) : note [] exits = exits := by
  cases exits <;> simp [note]

@[simp]
theorem note_note (places more : List Nat) (exits : List (List Nat)) :
    note more (note places exits) = note (places ++ more) exits := by
  cases exits <;> simp [note]

@[simp]
theorem isEmpty_note (places : List Nat) (exits : List (List Nat)) : (note places exits).isEmpty = exits.isEmpty := by
  cases exits <;> rfl

/-! ## Statements -/

/-- A generator that has written some code and knows some names. -/
def Generator.of (code : Code) (names : Names) (exits : List (List Nat)) : Generator :=
  ⟨code, names.temps, names.current :: names.enclosing, exits⟩

/-- The generator after the code of statements, with the jumps out of the loop around them still open. -/
def Generator.laid (start : Nat) (code : Code) (exits : List (List Nat)) (r : List Draft × Names) : Unit × Generator :=
  ((), .of (code ++ r.1.map (Draft.close pending)) r.2 (note (leaves start r.1) exits))

namespace Generation

variable {code : Code} {names : Names} {exits : List (List Nat)}

theorem run_emit_of (place : Nat) (hplace : place = code.length) (i : Instruction) :
    (emit i).run (.of code names exits) = .ok (place, .of (code ++ [i]) names exits) := by
  rw [hplace]
  rfl

theorem run_here_of (place : Nat) (hplace : place = code.length) :
    here.run (.of code names exits) = .ok (place, .of code names exits) := by
  rw [hplace]
  rfl

theorem run_modify_of {f : Generator → Generator} (names' : Names) (exits' : List (List Nat))
    (hf : f (.of code names exits) = .of code names' exits') :
    (modify f : Generation Unit).run (.of code names exits) = .ok ((), .of code names' exits') := by
  rw [← hf]
  rfl

theorem run_expr_of (e : Expr) :
    (expr e).run (.of code names exits)
      = (names.exprCode e).map fun (part, x, names') => (x, .of (code ++ part) names' exits) := by
  refine run_last (run_expr _ e) ?_
  rintro ⟨part, x, temps⟩
  rfl

theorem run_exprs_of (args : List Expr) :
    (exprs args).run (.of code names exits) = (argsCode names.find? args names.temps).map
      fun (part, xs, temps) => (xs, .of (code ++ part) { names with temps } exits) :=
  run_exprs _ args

theorem run_call_of (callee : String) (args : List String) :
    (call callee args).run (.of code names exits) = (callCode names.find? callee args).map
      fun (params, site) => (site, .of (code ++ params) names exits) :=
  run_call _ callee args

theorem run_pad_of {start : Nat} (hstart : start = code.length) (drafts : List Draft) (t : Nat) :
    (pad start).run (.of (code ++ drafts.map (Draft.close t)) names exits)
      = .ok ((), .of (code ++ (padded drafts).map (Draft.close t)) names exits) := by
  refine run_step (run_here_of _ rfl) ?_
  cases drafts with
  | nil =>
      rw [List.map_nil, List.append_nil, if_pos hstart.symm]
      rfl
  | cons draft drafts =>
      rw [if_neg (by simp [hstart])]
      rfl

theorem modify_length_append {α : Type} (before after : List α) (a : α) (f : α → α) :
    (before ++ a :: after).modify before.length f = before ++ f a :: after := by
  induction before with
  | nil => rfl
  | cons b before ih => simp [ih]

theorem run_patch_of (before after : Code) (i : Instruction) {place target : Nat}
    (hcode : code = before ++ i :: after) (hplace : place = before.length) :
    (patch place target).run (.of code names exits)
      = .ok ((), .of (before ++ i.mapTarget (fun _ => target) :: after) names exits) := by
  rw [hcode, hplace, ← modify_length_append before after i (Instruction.mapTarget fun _ => target)]
  rfl

/-- When the end of a condition is known, its three jumps are put in place. -/
theorem run_patches_of (before thenPart elsePart : Code) (x : String) {toThen toElse toEnd : Nat}
    (thenStart elseStart finish : Nat) (hthen : toThen = before.length) (helse : toElse = toThen + 1)
    (hend : toEnd = toThen + 2 + thenPart.length)
    (hcode : code = before ++ .branch x pending :: .goto pending :: (thenPart ++ .goto pending :: elsePart)) :
    (do
      patch toThen thenStart
      patch toElse elseStart
      patch toEnd finish : Generation Unit).run (.of code names exits)
      = .ok ((), .of (before ++ .branch x thenStart :: .goto elseStart :: (thenPart ++ .goto finish :: elsePart))
        names exits) := by
  refine run_step (run_patch_of before (.goto pending :: (thenPart ++ .goto pending :: elsePart)) (.branch x pending)
    hcode hthen) ?_
  refine run_step (run_patch_of (before ++ [.branch x thenStart]) (thenPart ++ .goto pending :: elsePart) (.goto pending)
    (by simp [Instruction.mapTarget]) (by simp; omega)) ?_
  refine (run_patch_of (before ++ .branch x thenStart :: .goto elseStart :: thenPart) elsePart (.goto pending)
    (by simp [Instruction.mapTarget]) (by simp; omega)).trans ?_
  simp [Instruction.mapTarget]

/-- When the end of a loop is known, all jumps to it are put in place. -/
theorem run_patchAll_of (before after : Code) (drafts : List Draft) (target : Nat) {start : Nat}
    (hstart : start = before.length) (hcode : code = before ++ (drafts.map (Draft.close pending) ++ after)) :
    (patchAll target (leaves start drafts)).run (.of code names exits)
      = .ok ((), .of (before ++ (drafts.map (Draft.close target) ++ after)) names exits) := by
  induction drafts generalizing before start code with
  | nil =>
      rw [hcode]
      rfl
  | cons draft drafts ih =>
      cases draft with
      | done i =>
          rw [leaves, ih (before ++ [i]) (by simp [hstart]) (by simpa [Draft.close] using hcode)]
          simp [Draft.close]
      | leave =>
          refine run_step (run_patch_of before _ (.goto pending) hcode hstart) ?_
          rw [ih (before ++ [.goto target]) (by simp [hstart]) (by simp [Instruction.mapTarget])]
          simp [Draft.close]

/-- A generator writes statements as they are laid out, wherever it is. -/
def Writes (stmts : List Stmt) : Prop :=
  ∀ {inLoop : Bool} {start : Nat} {code : Code} {names : Names} {exits : List (List Nat)},
    inLoop = !exits.isEmpty → start = code.length →
    (statements stmts).run (.of code names exits) = (stmtsCode stmts inLoop start names).map (Generator.laid start code exits)

section Statements

variable {inLoop : Bool} {start : Nat}

theorem run_cond (test : Expr) {thenBlock elseBlock : List Stmt} (hthen : Writes thenBlock) (helse : Writes elseBlock)
    (hloop : inLoop = !exits.isEmpty) (hstart : start = code.length) :
    (statement (.cond test thenBlock elseBlock)).run (.of code names exits)
      = (stmtCode (.cond test thenBlock elseBlock) inLoop start names).map (Generator.laid start code exits) := by
  rw [statement, stmtCode]
  refine run_andThen (run_expr_of test) ?_
  rintro ⟨part, x, names₁⟩ -
  refine run_step (run_emit_of (start + part.length) (by simp [hstart]) _) ?_
  refine run_step (run_emit_of (start + part.length + 1) (by simp [hstart, Nat.add_assoc]) _) ?_
  refine run_step (run_here_of (start + part.length + 2) (by simp [hstart, Nat.add_assoc])) ?_
  refine run_andThen (hthen hloop (by simp [hstart, Nat.add_assoc])) ?_
  rintro ⟨thenCode, names₂⟩ -
  obtain ⟨thenStart, hthenStart⟩ : ∃ n, n = start + part.length + 2 := ⟨_, rfl⟩
  rw [← hthenStart]
  refine run_step (run_pad_of (by simp [hthenStart, hstart, Nat.add_assoc]) thenCode pending) ?_
  refine run_step (run_emit_of (thenStart + (padded thenCode).length) (by simp [hthenStart, hstart]; omega) _) ?_
  refine run_step (run_here_of (thenStart + (padded thenCode).length + 1) (by simp [hthenStart, hstart]; omega)) ?_
  refine run_andThen (helse (by simpa using hloop) (by simp [hthenStart, hstart]; omega)) ?_
  rintro ⟨elseCode, names₃⟩ -
  obtain ⟨elseStart, helseStart⟩ : ∃ n, n = thenStart + (padded thenCode).length + 1 := ⟨_, rfl⟩
  rw [← helseStart]
  refine run_step (run_pad_of (by simp [helseStart, hthenStart, hstart]; omega) elseCode pending) ?_
  refine run_step (run_emit_of (elseStart + (padded elseCode).length)
    (by simp [helseStart, hthenStart, hstart]; omega) _) ?_
  refine (run_patches_of (code ++ part) ((padded thenCode).map (Draft.close pending))
    ((padded elseCode).map (Draft.close pending) ++ [.blank]) x _ _ _ (by simp [hstart]) rfl
    (by simp [hthenStart]) (by simp)).trans ?_
  simp [pure_eq_ok, Except.map, Generator.laid, helseStart, hthenStart, Nat.add_assoc]

theorem run_loop (test : Expr) {body : List Stmt} (hbody : Writes body) (hstart : start = code.length) :
    (statement (.loop test body)).run (.of code names exits)
      = (stmtCode (.loop test body) inLoop start names).map (Generator.laid start code exits) := by
  rw [statement, stmtCode]
  refine run_step (run_emit_of start hstart _) ?_
  refine run_step (run_modify_of names ([] :: exits) rfl) ?_
  refine run_step (run_here_of (start + 1) (by simp [hstart])) ?_
  refine run_andThen (hbody rfl (by simp [hstart])) ?_
  rintro ⟨bodyCode, names₁⟩ -
  have hclose : closeLoop.run (Generator.laid (start + 1) (code ++ [.goto pending]) ([] :: exits) (bodyCode, names₁)).2
      = .ok (leaves (start + 1) bodyCode,
        .of (code ++ [.goto pending] ++ bodyCode.map (Draft.close pending)) names₁ exits) := rfl
  refine run_step hclose (run_step (run_here_of (start + 1 + bodyCode.length) (by simp [hstart]; omega)) ?_)
  refine run_andThen (run_expr_of test) ?_
  rintro ⟨part, x, names₂⟩ -
  refine run_step (run_emit_of _ rfl _) ?_
  refine run_step (run_emit_of (start + 1 + bodyCode.length + part.length + 1) (by simp [hstart]; omega) _) ?_
  refine run_step (run_patch_of code (bodyCode.map (Draft.close pending) ++ (part ++ [.branch x (start + 1), .blank]))
    (.goto pending) (by simp) hstart) ?_
  refine (run_patchAll_of (code ++ [.goto (start + 1 + bodyCode.length)]) (part ++ [.branch x (start + 1), .blank])
    bodyCode _ (by simp [hstart]) (by simp [Instruction.mapTarget])).trans ?_
  simp [pure_eq_ok, Except.map, Generator.laid]

/-- The body of a function is in no loop, so nothing of it waits for the end of one. -/
theorem run_function (name : String) (params : List String) {body : List Stmt} (hbody : Writes body)
    (hstart : start = code.length) :
    (statement (.function name params body)).run (.of code names exits)
      = (stmtCode (.function name params body) inLoop start names).map (Generator.laid start code exits) := by
  rw [statement, stmtCode]
  refine run_step (run_emit_of start hstart _) ?_
  refine run_step (run_emit_of (start + 1) (by simp [hstart]) _) ?_
  refine run_step (run_modify_of (names.declare name ⟨params, start + 1⟩) exits rfl) ?_
  refine run_step rfl ?_
  refine run_step (run_modify_of (names.declare name ⟨params, start + 1⟩).enter [] rfl) ?_
  refine run_andThen (hbody rfl (by simp [hstart])) ?_
  rintro ⟨bodyCode, inner⟩ hcode
  have hemits := blockEmits_of_stmtsCode body hcode
  refine run_step (run_modify_of { names.declare name ⟨params, start + 1⟩ with temps := inner.temps } exits ?_) ?_
  · simp only [Generator.of, List.tail_cons, hemits.enclosing_eq]
    rfl
  refine run_step (run_emit_of _ rfl _) ?_
  refine run_step (run_emit_of (start + 2 + bodyCode.length + 1) (by simp [hstart]; omega) _) ?_
  refine (run_patch_of code (.blank :: (bodyCode.map (Draft.close pending) ++ [.ret missing, .blank])) (.goto pending)
    (by simp) hstart).trans ?_
  simp [pure_eq_ok, Except.map, Generator.laid, Instruction.mapTarget, hemits.leaves_eq_nil]

end Statements

mutual

theorem run_statement {inLoop : Bool} {start : Nat} {code : Code} {names : Names} {exits : List (List Nat)} :
    (s : Stmt) → inLoop = !exits.isEmpty → start = code.length →
    (statement s).run (.of code names exits) = (stmtCode s inLoop start names).map (Generator.laid start code exits)
  | .cond test thenBlock elseBlock, hloop, hstart =>
      run_cond test (writes_statements thenBlock) (writes_statements elseBlock) hloop hstart
  | .loop test body, _, hstart => run_loop test (writes_statements body) hstart
  | .ret none, _, _ => by
      rw [statement, stmtCode]
      refine run_step (run_emit_of _ rfl _) ?_
      simp [pure_eq_ok, Except.map, Generator.laid, complete, Draft.close, leaves]
  | .ret (some value), _, _ => by
      rw [statement, stmtCode]
      refine run_andThen (run_expr_of value) ?_
      rintro ⟨part, x, names₁⟩ -
      refine run_step (run_emit_of _ rfl _) ?_
      simp [pure_eq_ok, Except.map, Generator.laid]
  | .leave, hloop, hstart => by
      rw [statement, stmtCode]
      refine run_step (run_emit_of _ hstart _) ?_
      subst hloop
      cases exits <;> rfl
  | .assign name value, _, _ => by
      rw [statement, stmtCode]
      refine run_andThen (run_expr_of value) ?_
      rintro ⟨part, x, names₁⟩ -
      refine run_step (run_emit_of _ rfl _) ?_
      simp [pure_eq_ok, Except.map, Generator.laid]
  | .function name params body, _, hstart => run_function name params (writes_statements body) hstart
  | .call callee args, _, _ => by
      rw [statement, stmtCode]
      refine run_andThen (run_exprs_of args) ?_
      rintro ⟨part, xs, temps⟩ -
      refine run_andThen (run_call_of callee xs) ?_
      rintro ⟨params, site⟩ -
      refine run_step (run_emit_of _ rfl _) ?_
      simp [pure_eq_ok, Except.map, Generator.laid]

theorem writes_statements : (stmts : List Stmt) → Writes stmts
  | [] => by
      intro _ _
      simp [statements, stmtsCode, pure_eq_ok, Except.map, Generator.laid, leaves]
  | s :: rest => by
      intro hloop hstart
      rw [statements, stmtsCode]
      refine run_andThen (run_statement s hloop hstart) ?_
      rintro ⟨first, names₁⟩ -
      refine run_last (writes_statements rest (by simpa using hloop) (by simp [hstart])) ?_
      rintro ⟨more, names₂⟩
      simp [pure_eq_ok, Except.map, Generator.laid]

end

end Generation

/-! ## Programs -/

/-- What a generator writes for a program is the code of the program, with all its jumps in place. -/
theorem Generator.arena_eq (program : List Stmt) : Generator.arena program = Ir.arena program := by
  have hstatements : (Generation.statements program).run (.of [] .initial [])
      = (stmtsCode program false 0 .initial).map (Generator.laid 0 [] []) :=
    Generation.writes_statements program rfl rfl
  have hinitial : Generator.initial = .of [] .initial [] := rfl
  rw [Generator.arena, Ir.arena, Generation.program, StateT.run_bind, hinitial, hstatements]
  cases stmtsCode program false 0 .initial <;> rfl

theorem Generator.generate_eq (program : List Stmt) : Generator.generate program = Ir.generate program := by
  rw [Generator.generate, Ir.generate, Generator.arena_eq]

end Scriptlet.Ir
