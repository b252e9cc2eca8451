import Mathlib.Tactic
import Scriptlet.Ir.Generate
import Scriptlet.Proofs.Actions

/-!
# The shape of generated code

How the code of an expression or a statement is put together from the codes of its parts: one rule for each form. There is
code exactly where the rules give it, so what holds of all generated code is shown along the rules. Where there is none,
rules of their own tell why: the parts before the one that fails have code.
-/

namespace Scriptlet.Ir

/-! ## Expressions -/

mutual

/-- The code of an expression, the operand that holds its value, and the temporaries in use before and after it. -/
inductive ExprEmits (find : String → Option Signature) : Expr → Nat → Code → String → Nat → Prop
  | chainNil {layer : Layer} {ops : List BinaryOp} {temps : Nat} :
      ExprEmits find (.chain layer [] ops) temps [] missing temps
  | chain {layer : Layer} {e : Expr} {es : List Expr} {ops : List BinaryOp} {temps mid temps' : Nat} {first rest : Code}
      {x y : String} : ExprEmits find e temps first y mid → ChainEmits find es ops y mid rest x temps' →
      ExprEmits find (.chain layer (e :: es) ops) temps (first ++ rest) x temps'
  | unary {ops : List UnaryOp} {operand : Expr} {temps mid : Nat} {first : Code} {y : String} :
      ExprEmits find operand temps first y mid →
      ExprEmits find (.unary ops operand) temps (first ++ (unaryCode ops y mid).1) (unaryCode ops y mid).2.1
        (unaryCode ops y mid).2.2
  | name {id : String} {temps : Nat} :
      ExprEmits find (.name id) temps [.assign (temp temps) (.single id)] (temp temps) (temps + 1)
  | literal {kind : LiteralKind} {text : String} {temps : Nat} :
      ExprEmits find (.literal kind text) temps [.assign (temp temps) (.single text)] (temp temps) (temps + 1)
  | paren {inner : Expr} {temps temps' : Nat} {code : Code} {x : String} : ExprEmits find inner temps code x temps' →
      ExprEmits find (.paren inner) temps code x temps'
  | call {callee : String} {args : List Expr} {temps mid : Nat} {first params : Code} {xs : List String}
      {site : CallSite} : ArgsEmits find args temps first xs mid → callCode find callee xs = .ok (params, site) →
      ExprEmits find (.call callee args) temps (first ++ (params ++ [.assign (temp mid) (.call site)])) (temp mid)
        (mid + 1)

/-- The code of the operators and operands that follow the first operand of a chain. -/
inductive ChainEmits (find : String → Option Signature) :
    List Expr → List BinaryOp → String → Nat → Code → String → Nat → Prop
  | stop {es : List Expr} {ops : List BinaryOp} {x : String} {temps : Nat} : es = [] ∨ ops = [] →
      ChainEmits find es ops x temps [] x temps
  | cons {e : Expr} {es : List Expr} {op : BinaryOp} {ops : List BinaryOp} {temps mid temps' : Nat} {first rest : Code}
      {x y z : String} : ExprEmits find e temps first z mid →
      ChainEmits find es ops (temp mid) (mid + 1) rest x temps' →
      ChainEmits find (e :: es) (op :: ops) y temps (first ++ .assign (temp mid) (.binary op y z) :: rest) x temps'

/-- The code of arguments and the operands that hold their values. -/
inductive ArgsEmits (find : String → Option Signature) : List Expr → Nat → Code → List String → Nat → Prop
  | nil {temps : Nat} : ArgsEmits find [] temps [] [] temps
  | cons {e : Expr} {es : List Expr} {temps mid temps' : Nat} {first rest : Code} {y : String} {ys : List String} :
      ExprEmits find e temps first y mid → ArgsEmits find es mid rest ys temps' →
      ArgsEmits find (e :: es) temps (first ++ rest) (y :: ys) temps'

end

section Expressions

variable {find : String → Option Signature}

mutual

theorem exprEmits_of_exprCode {temps temps' : Nat} {code : Code} {x : String} :
    (e : Expr) → exprCode find e temps = .ok (code, x, temps') → ExprEmits find e temps code x temps'
  | .chain _ [] _, h => by
      rw [exprCode] at h
      cases h
      exact .chainNil
  | .chain _ (e :: es) ops, h => by
      simp only [exprCode, bind_eq_ok_iff, Prod.exists] at h
      obtain ⟨first, y, mid, hfirst, rest, z, last, hrest, h⟩ := h
      cases h
      exact .chain (exprEmits_of_exprCode e hfirst) (chainEmits_of_chainCode es ops hrest)
  | .unary ops operand, h => by
      simp only [exprCode, bind_eq_ok_iff, Prod.exists] at h
      obtain ⟨first, y, mid, hfirst, h⟩ := h
      cases h
      exact .unary (exprEmits_of_exprCode operand hfirst)
  | .name id, h => by
      rw [exprCode] at h
      cases h
      exact .name
  | .literal kind text, h => by
      rw [exprCode] at h
      cases h
      exact .literal
  | .paren inner, h => by
      rw [exprCode] at h
      exact .paren (exprEmits_of_exprCode inner h)
  | .call callee args, h => by
      simp only [exprCode, bind_eq_ok_iff, Prod.exists] at h
      obtain ⟨first, xs, mid, hfirst, params, site, hcall, h⟩ := h
      cases h
      rw [List.append_assoc]
      exact .call (argsEmits_of_argsCode args hfirst) hcall

theorem chainEmits_of_chainCode {temps temps' : Nat} {code : Code} {x y : String} :
    (es : List Expr) → (ops : List BinaryOp) → chainCode find es ops y temps = .ok (code, x, temps') →
      ChainEmits find es ops y temps code x temps'
  | [], ops, h => by
      rw [chainCode] at h
      · cases h
        exact .stop (.inl rfl)
      · rintro _ _ _ _ ⟨⟩
  | e :: es, [], h => by
      rw [chainCode] at h
      · cases h
        exact .stop (.inr rfl)
      · rintro _ _ _ _ _ ⟨⟩
  | e :: es, op :: ops, h => by
      simp only [chainCode, bind_eq_ok_iff, Prod.exists] at h
      obtain ⟨first, z, mid, hfirst, rest, w, last, hrest, h⟩ := h
      cases h
      exact .cons (exprEmits_of_exprCode e hfirst) (chainEmits_of_chainCode es ops hrest)

theorem argsEmits_of_argsCode {temps temps' : Nat} {code : Code} {xs : List String} :
    (args : List Expr) → argsCode find args temps = .ok (code, xs, temps') → ArgsEmits find args temps code xs temps'
  | [], h => by
      rw [argsCode] at h
      cases h
      exact .nil
  | e :: es, h => by
      simp only [argsCode, bind_eq_ok_iff, Prod.exists] at h
      obtain ⟨first, y, mid, hfirst, rest, ys, last, hrest, h⟩ := h
      cases h
      exact .cons (exprEmits_of_exprCode e hfirst) (argsEmits_of_argsCode es hrest)

end

mutual

theorem ExprEmits.exprCode_eq {e : Expr} {temps temps' : Nat} {code : Code} {x : String} :
    ExprEmits find e temps code x temps' → exprCode find e temps = .ok (code, x, temps')
  | .chainNil => rfl
  | .chain hfirst hrest => by simp [exprCode, hfirst.exprCode_eq, hrest.chainCode_eq, bind_eq_ok_iff]
  | .unary hfirst => by simp [exprCode, hfirst.exprCode_eq]
  | .name => rfl
  | .literal => rfl
  | .paren hinner => by rw [exprCode, hinner.exprCode_eq]
  | .call hargs hcall => by simp [exprCode, hargs.argsCode_eq, hcall, bind_eq_ok_iff]

theorem ChainEmits.chainCode_eq {es : List Expr} {ops : List BinaryOp} {temps temps' : Nat} {code : Code} {x y : String} :
    ChainEmits find es ops y temps code x temps' → chainCode find es ops y temps = .ok (code, x, temps')
  | .stop hstop => by
      rcases hstop with rfl | rfl <;> simp [chainCode, pure, Except.pure]
  | .cons hfirst hrest => by simp [chainCode, hfirst.exprCode_eq, hrest.chainCode_eq, bind_eq_ok_iff]

theorem ArgsEmits.argsCode_eq {args : List Expr} {temps temps' : Nat} {code : Code} {xs : List String} :
    ArgsEmits find args temps code xs temps' → argsCode find args temps = .ok (code, xs, temps')
  | .nil => rfl
  | .cons hfirst hrest => by simp [argsCode, hfirst.exprCode_eq, hrest.argsCode_eq, bind_eq_ok_iff]

end

theorem ArgsEmits.length_eq {args : List Expr} {temps temps' : Nat} {code : Code} {xs : List String} :
    ArgsEmits find args temps code xs temps' → xs.length = args.length
  | .nil => rfl
  | .cons _ hrest => congrArg (· + 1) hrest.length_eq

/-- The parameters of a call, and the call: of a builtin, or of a function that takes at least these arguments. -/
theorem callCode_eq {callee : String} {args : List String} {params : Code} {site : CallSite}
    (h : callCode find callee args = .ok (params, site)) :
    (find callee = none ∧ params = args.map (.param · none) ∧ site = ⟨callee, args.length, none⟩)
      ∨ ∃ signature, find callee = some signature ∧ args.length ≤ signature.params.length
        ∧ params = List.zipWith (fun p x => .param x (some p)) signature.params
            (args ++ List.replicate (signature.params.length - args.length) missing)
        ∧ site = ⟨callee, signature.params.length, some signature.entry⟩ := by
  rw [callCode] at h
  split at h
  · rename_i hfind
    cases h
    exact .inl ⟨hfind, rfl, rfl⟩
  · rename_i ps entry hfind
    split at h
    · cases h
    · rename_i hle
      cases h
      exact .inr ⟨⟨ps, entry⟩, hfind, Nat.le_of_not_lt hle, rfl, rfl⟩

end Expressions

/-! ## Expressions without code -/

mutual

/-- Why an expression has no code: because of the first of its parts that has none, or of a call. -/
inductive ExprFails (find : String → Option Signature) : Expr → Nat → GenerateError → Prop
  | chainFirst {layer : Layer} {e : Expr} {es : List Expr} {ops : List BinaryOp} {temps : Nat} {cause : GenerateError} :
      ExprFails find e temps cause → ExprFails find (.chain layer (e :: es) ops) temps cause
  | chainRest {layer : Layer} {e : Expr} {es : List Expr} {ops : List BinaryOp} {temps mid : Nat} {first : Code}
      {y : String} {cause : GenerateError} : ExprEmits find e temps first y mid → ChainFails find es ops mid cause →
      ExprFails find (.chain layer (e :: es) ops) temps cause
  | unary {ops : List UnaryOp} {operand : Expr} {temps : Nat} {cause : GenerateError} :
      ExprFails find operand temps cause → ExprFails find (.unary ops operand) temps cause
  | paren {inner : Expr} {temps : Nat} {cause : GenerateError} :
      ExprFails find inner temps cause → ExprFails find (.paren inner) temps cause
  | callArgs {callee : String} {args : List Expr} {temps : Nat} {cause : GenerateError} :
      ArgsFails find args temps cause → ExprFails find (.call callee args) temps cause
  | call {callee : String} {args : List Expr} {temps mid : Nat} {first : Code} {xs : List String}
      {cause : GenerateError} : ArgsEmits find args temps first xs mid → callCode find callee xs = .error cause →
      ExprFails find (.call callee args) temps cause

inductive ChainFails (find : String → Option Signature) : List Expr → List BinaryOp → Nat → GenerateError → Prop
  | first {e : Expr} {es : List Expr} {op : BinaryOp} {ops : List BinaryOp} {temps : Nat} {cause : GenerateError} :
      ExprFails find e temps cause → ChainFails find (e :: es) (op :: ops) temps cause
  | rest {e : Expr} {es : List Expr} {op : BinaryOp} {ops : List BinaryOp} {temps mid : Nat} {first : Code}
      {y : String} {cause : GenerateError} : ExprEmits find e temps first y mid →
      ChainFails find es ops (mid + 1) cause → ChainFails find (e :: es) (op :: ops) temps cause

inductive ArgsFails (find : String → Option Signature) : List Expr → Nat → GenerateError → Prop
  | first {e : Expr} {es : List Expr} {temps : Nat} {cause : GenerateError} : ExprFails find e temps cause →
      ArgsFails find (e :: es) temps cause
  | rest {e : Expr} {es : List Expr} {temps mid : Nat} {first : Code} {y : String} {cause : GenerateError} :
      ExprEmits find e temps first y mid → ArgsFails find es mid cause → ArgsFails find (e :: es) temps cause

end

mutual

theorem exprFails_of_exprCode {find : String → Option Signature} {temps : Nat} {cause : GenerateError} :
    (e : Expr) → exprCode find e temps = .error cause → ExprFails find e temps cause
  | .chain _ [] _, h => by
      rw [exprCode] at h
      cases h
  | .chain _ (e :: es) ops, h => by
      simp only [exprCode, bind_eq_error_iff, Prod.exists] at h
      obtain h | ⟨first, y, mid, hfirst, h | ⟨_, _, _, -, h⟩⟩ := h
      · exact .chainFirst (exprFails_of_exprCode e h)
      · exact .chainRest (exprEmits_of_exprCode e hfirst) (chainFails_of_chainCode es ops h)
      · cases h
  | .unary ops operand, h => by
      simp only [exprCode, bind_eq_error_iff, Prod.exists] at h
      obtain h | ⟨_, _, _, -, h⟩ := h
      · exact .unary (exprFails_of_exprCode operand h)
      · cases h
  | .name id, h => by
      rw [exprCode] at h
      cases h
  | .literal kind text, h => by
      rw [exprCode] at h
      cases h
  | .paren inner, h => by
      rw [exprCode] at h
      exact .paren (exprFails_of_exprCode inner h)
  | .call callee args, h => by
      simp only [exprCode, bind_eq_error_iff, Prod.exists] at h
      obtain h | ⟨first, xs, mid, hfirst, h | ⟨_, _, -, h⟩⟩ := h
      · exact .callArgs (argsFails_of_argsCode args h)
      · exact .call (argsEmits_of_argsCode args hfirst) h
      · cases h

theorem chainFails_of_chainCode {find : String → Option Signature} {temps : Nat} {x : String} {cause : GenerateError} :
    (es : List Expr) → (ops : List BinaryOp) → chainCode find es ops x temps = .error cause →
      ChainFails find es ops temps cause
  | [], ops, h => by
      rw [chainCode] at h
      · cases h
      · rintro _ _ _ _ ⟨⟩
  | e :: es, [], h => by
      rw [chainCode] at h
      · cases h
      · rintro _ _ _ _ _ ⟨⟩
  | e :: es, op :: ops, h => by
      simp only [chainCode, bind_eq_error_iff, Prod.exists] at h
      obtain h | ⟨first, y, mid, hfirst, h | ⟨_, _, _, -, h⟩⟩ := h
      · exact .first (exprFails_of_exprCode e h)
      · exact .rest (exprEmits_of_exprCode e hfirst) (chainFails_of_chainCode es ops h)
      · cases h

theorem argsFails_of_argsCode {find : String → Option Signature} {temps : Nat} {cause : GenerateError} :
    (args : List Expr) → argsCode find args temps = .error cause → ArgsFails find args temps cause
  | [], h => by
      rw [argsCode] at h
      cases h
  | e :: es, h => by
      simp only [argsCode, bind_eq_error_iff, Prod.exists] at h
      obtain h | ⟨first, y, mid, hfirst, h | ⟨_, _, _, -, h⟩⟩ := h
      · exact .first (exprFails_of_exprCode e h)
      · exact .rest (exprEmits_of_exprCode e hfirst) (argsFails_of_argsCode es h)
      · cases h

end

/-! ## Statements -/

/-- The code of an expression in the current scope, and what is known after it. -/
def Names.Emits (names : Names) (e : Expr) (code : Code) (x : String) (names' : Names) : Prop :=
  ∃ temps, ExprEmits names.find? e names.temps code x temps ∧ names' = { names with temps }

mutual

/-- The code of a statement that starts at the given place, within a loop or not. -/
inductive StmtEmits : Stmt → Bool → Nat → Names → List Draft → Names → Prop
  | cond {test : Expr} {thenBlock elseBlock : List Stmt} {inLoop : Bool} {start thenStart elseStart finish : Nat}
      {code : Code} {x : String} {thenCode elseCode : List Draft} {names names₁ names₂ names' : Names} :
      names.Emits test code x names₁ →
      thenStart = start + code.length + 2 → BlockEmits thenBlock inLoop thenStart names₁ thenCode names₂ →
      elseStart = thenStart + (padded thenCode).length + 1 →
      BlockEmits elseBlock inLoop elseStart names₂ elseCode names' →
      finish = elseStart + (padded elseCode).length →
      StmtEmits (.cond test thenBlock elseBlock) inLoop start names
        (complete (code ++ [.branch x thenStart, .goto elseStart])
          ++ (padded thenCode ++ (complete [.goto finish] ++ (padded elseCode ++ complete [.blank])))) names'
  | loop {test : Expr} {body : List Stmt} {inLoop : Bool} {start testStart finish : Nat} {code : Code} {x : String}
      {bodyCode : List Draft} {names names₁ names' : Names} :
      BlockEmits body true (start + 1) names bodyCode names₁ → testStart = start + 1 + bodyCode.length →
      names₁.Emits test code x names' → finish = testStart + code.length + 1 →
      StmtEmits (.loop test body) inLoop start names
        (complete (.goto testStart :: (bodyCode.map (Draft.close finish) ++ (code ++ [.branch x (start + 1), .blank]))))
        names'
  | retNone {inLoop : Bool} {start : Nat} {names : Names} :
      StmtEmits (.ret none) inLoop start names (complete [.ret missing]) names
  | ret {value : Expr} {inLoop : Bool} {start : Nat} {code : Code} {x : String} {names names' : Names} :
      names.Emits value code x names' →
      StmtEmits (.ret (some value)) inLoop start names (complete (code ++ [.ret x])) names'
  | leave {start : Nat} {names : Names} : StmtEmits .leave true start names [.leave] names
  | assign {name : String} {value : Expr} {inLoop : Bool} {start : Nat} {code : Code} {x : String} {names names' : Names} :
      names.Emits value code x names' →
      StmtEmits (.assign name value) inLoop start names (complete (code ++ [.assign name (.single x)])) names'
  | function {name : String} {params : List String} {body : List Stmt} {inLoop : Bool} {start finish : Nat}
      {bodyCode : List Draft} {names inner : Names} :
      BlockEmits body false (start + 2) (names.declare name ⟨params, start + 1⟩).enter bodyCode inner →
      finish = start + 2 + bodyCode.length + 1 →
      StmtEmits (.function name params body) inLoop start names
        (complete [.goto finish, .blank] ++ (bodyCode ++ complete [.ret missing, .blank]))
        { names.declare name ⟨params, start + 1⟩ with temps := inner.temps }
  | call {callee : String} {args : List Expr} {inLoop : Bool} {start temps : Nat} {code params : Code} {xs : List String}
      {site : CallSite} {names : Names} :
      ArgsEmits names.find? args names.temps code xs temps → callCode names.find? callee xs = .ok (params, site) →
      StmtEmits (.call callee args) inLoop start names (complete (code ++ (params ++ [.call site]))) { names with temps }

/-- The code of statements, one after the other. -/
inductive BlockEmits : List Stmt → Bool → Nat → Names → List Draft → Names → Prop
  | nil {inLoop : Bool} {start : Nat} {names : Names} : BlockEmits [] inLoop start names [] names
  | cons {s : Stmt} {rest : List Stmt} {inLoop : Bool} {start : Nat} {first more : List Draft}
      {names names₁ names' : Names} :
      StmtEmits s inLoop start names first names₁ → BlockEmits rest inLoop (start + first.length) names₁ more names' →
      BlockEmits (s :: rest) inLoop start names (first ++ more) names'

end

section Statements

theorem Names.exprCode_eq_ok_iff {names names' : Names} {e : Expr} {code : Code} {x : String} :
    names.exprCode e = .ok (code, x, names') ↔ names.Emits e code x names' := by
  simp only [Names.exprCode, bind_eq_ok_iff, Prod.exists, Names.Emits]
  constructor
  · rintro ⟨code, x, temps, hcode, h⟩
    cases h
    exact ⟨temps, exprEmits_of_exprCode e hcode, rfl⟩
  · rintro ⟨temps, hcode, rfl⟩
    exact ⟨code, x, temps, hcode.exprCode_eq, rfl⟩

mutual

theorem stmtEmits_of_stmtCode {inLoop : Bool} {start : Nat} {names names' : Names} {drafts : List Draft} :
    (s : Stmt) → stmtCode s inLoop start names = .ok (drafts, names') → StmtEmits s inLoop start names drafts names'
  | .cond test thenBlock elseBlock, h => by
      simp only [stmtCode, bind_eq_ok_iff, Prod.exists, Names.exprCode_eq_ok_iff] at h
      obtain ⟨code, x, names₁, hcode, thenCode, names₂, hthen, elseCode, names₃, helse, h⟩ := h
      cases h
      simp only [List.append_assoc]
      exact .cond hcode rfl (blockEmits_of_stmtsCode thenBlock hthen) rfl (blockEmits_of_stmtsCode elseBlock helse) rfl
  | .loop test body, h => by
      simp only [stmtCode, bind_eq_ok_iff, Prod.exists, Names.exprCode_eq_ok_iff] at h
      obtain ⟨bodyCode, names₁, hbody, code, x, names₂, hcode, h⟩ := h
      cases h
      simp only [List.cons_append, List.nil_append, List.append_assoc]
      exact .loop (blockEmits_of_stmtsCode body hbody) rfl hcode rfl
  | .ret none, h => by
      rw [stmtCode] at h
      cases h
      exact .retNone
  | .ret (some value), h => by
      simp only [stmtCode, bind_eq_ok_iff, Prod.exists, Names.exprCode_eq_ok_iff] at h
      obtain ⟨code, x, names₁, hcode, h⟩ := h
      cases h
      exact .ret hcode
  | .leave, h => by
      rw [stmtCode] at h
      split at h
      · rename_i hloop
        cases h
        rw [hloop]
        exact .leave
      · cases h
  | .assign name value, h => by
      simp only [stmtCode, bind_eq_ok_iff, Prod.exists, Names.exprCode_eq_ok_iff] at h
      obtain ⟨code, x, names₁, hcode, h⟩ := h
      cases h
      exact .assign hcode
  | .function name params body, h => by
      simp only [stmtCode, bind_eq_ok_iff, Prod.exists] at h
      obtain ⟨bodyCode, inner, hbody, h⟩ := h
      cases h
      rw [List.append_assoc]
      exact .function (blockEmits_of_stmtsCode body hbody) rfl
  | .call callee args, h => by
      simp only [stmtCode, bind_eq_ok_iff, Prod.exists] at h
      obtain ⟨code, xs, temps, hcode, params, site, hcall, h⟩ := h
      cases h
      rw [List.append_assoc]
      exact .call (argsEmits_of_argsCode args hcode) hcall

theorem blockEmits_of_stmtsCode {inLoop : Bool} {start : Nat} {names names' : Names} {drafts : List Draft} :
    (stmts : List Stmt) → stmtsCode stmts inLoop start names = .ok (drafts, names') →
      BlockEmits stmts inLoop start names drafts names'
  | [], h => by
      rw [stmtsCode] at h
      cases h
      exact .nil
  | s :: rest, h => by
      simp only [stmtsCode, bind_eq_ok_iff, Prod.exists] at h
      obtain ⟨first, names₁, hfirst, more, names₂, hmore, h⟩ := h
      cases h
      exact .cons (stmtEmits_of_stmtCode s hfirst) (blockEmits_of_stmtsCode rest hmore)

end

mutual

theorem StmtEmits.stmtCode_eq {s : Stmt} {inLoop : Bool} {start : Nat} {names names' : Names} {drafts : List Draft} :
    StmtEmits s inLoop start names drafts names' → stmtCode s inLoop start names = .ok (drafts, names')
  | .cond hcode hthenStart hthen helseStart helse hfinish => by
      subst hthenStart helseStart hfinish
      simp [stmtCode, Names.exprCode_eq_ok_iff.2 hcode, hthen.stmtsCode_eq, helse.stmtsCode_eq, bind_eq_ok_iff]
  | .loop hbody htestStart hcode hfinish => by
      subst htestStart hfinish
      simp [stmtCode, Names.exprCode_eq_ok_iff.2 hcode, hbody.stmtsCode_eq, bind_eq_ok_iff]
  | .retNone => rfl
  | .ret hcode => by simp [stmtCode, Names.exprCode_eq_ok_iff.2 hcode]
  | .leave => rfl
  | .assign hcode => by simp [stmtCode, Names.exprCode_eq_ok_iff.2 hcode]
  | .function hbody hfinish => by
      subst hfinish
      simp [stmtCode, hbody.stmtsCode_eq]
  | .call hargs hcall => by simp [stmtCode, hargs.argsCode_eq, hcall, bind_eq_ok_iff]

theorem BlockEmits.stmtsCode_eq {stmts : List Stmt} {inLoop : Bool} {start : Nat} {names names' : Names}
    {drafts : List Draft} :
    BlockEmits stmts inLoop start names drafts names' → stmtsCode stmts inLoop start names = .ok (drafts, names')
  | .nil => rfl
  | .cons hfirst hmore => by simp [stmtsCode, hfirst.stmtCode_eq, hmore.stmtsCode_eq, bind_eq_ok_iff]

end

theorem arena_eq_ok_iff {program : List Stmt} {code : Code} :
    arena program = .ok code ↔ ∃ drafts names, BlockEmits program false 0 .initial drafts names
      ∧ code = drafts.map (Draft.close pending) ++ [.stop] := by
  simp only [arena, bind_eq_ok_iff, Prod.exists]
  constructor
  · rintro ⟨drafts, names, hdrafts, h⟩
    cases h
    exact ⟨drafts, names, blockEmits_of_stmtsCode program hdrafts, rfl⟩
  · rintro ⟨drafts, names, hdrafts, rfl⟩
    exact ⟨drafts, names, hdrafts.stmtsCode_eq, rfl⟩

end Statements

/-! ## Statements without code -/

mutual

/-- Why a statement has no code: because of the first of its parts that has none, of a call, or because it leaves a loop
where there is none. -/
inductive StmtFails : Stmt → Bool → Nat → Names → GenerateError → Prop
  | condTest {test : Expr} {thenBlock elseBlock : List Stmt} {inLoop : Bool} {start : Nat} {names : Names}
      {cause : GenerateError} : ExprFails names.find? test names.temps cause →
      StmtFails (.cond test thenBlock elseBlock) inLoop start names cause
  | condThen {test : Expr} {thenBlock elseBlock : List Stmt} {inLoop : Bool} {start : Nat} {code : Code}
      {x : String} {names names₁ : Names} {cause : GenerateError} : names.Emits test code x names₁ →
      BlockFails thenBlock inLoop (start + code.length + 2) names₁ cause →
      StmtFails (.cond test thenBlock elseBlock) inLoop start names cause
  | condElse {test : Expr} {thenBlock elseBlock : List Stmt} {inLoop : Bool} {start thenStart : Nat}
      {code : Code} {x : String} {thenCode : List Draft} {names names₁ names₂ : Names} {cause : GenerateError} :
      names.Emits test code x names₁ → thenStart = start + code.length + 2 →
      BlockEmits thenBlock inLoop thenStart names₁ thenCode names₂ →
      BlockFails elseBlock inLoop (thenStart + (padded thenCode).length + 1) names₂ cause →
      StmtFails (.cond test thenBlock elseBlock) inLoop start names cause
  | loopBody {test : Expr} {body : List Stmt} {inLoop : Bool} {start : Nat} {names : Names} {cause : GenerateError} :
      BlockFails body true (start + 1) names cause → StmtFails (.loop test body) inLoop start names cause
  | loopTest {test : Expr} {body : List Stmt} {inLoop : Bool} {start : Nat} {bodyCode : List Draft}
      {names names₁ : Names} {cause : GenerateError} : BlockEmits body true (start + 1) names bodyCode names₁ →
      ExprFails names₁.find? test names₁.temps cause → StmtFails (.loop test body) inLoop start names cause
  | ret {value : Expr} {inLoop : Bool} {start : Nat} {names : Names} {cause : GenerateError} :
      ExprFails names.find? value names.temps cause → StmtFails (.ret (some value)) inLoop start names cause
  | leave {start : Nat} {names : Names} : StmtFails .leave false start names .breakOutsideLoop
  | assign {name : String} {value : Expr} {inLoop : Bool} {start : Nat} {names : Names} {cause : GenerateError} :
      ExprFails names.find? value names.temps cause → StmtFails (.assign name value) inLoop start names cause
  | function {name : String} {params : List String} {body : List Stmt} {inLoop : Bool} {start : Nat} {names : Names}
      {cause : GenerateError} :
      BlockFails body false (start + 2) (names.declare name ⟨params, start + 1⟩).enter cause →
      StmtFails (.function name params body) inLoop start names cause
  | callArgs {callee : String} {args : List Expr} {inLoop : Bool} {start : Nat} {names : Names}
      {cause : GenerateError} : ArgsFails names.find? args names.temps cause →
      StmtFails (.call callee args) inLoop start names cause
  | call {callee : String} {args : List Expr} {inLoop : Bool} {start temps : Nat} {code : Code} {xs : List String}
      {names : Names} {cause : GenerateError} : ArgsEmits names.find? args names.temps code xs temps →
      callCode names.find? callee xs = .error cause → StmtFails (.call callee args) inLoop start names cause

inductive BlockFails : List Stmt → Bool → Nat → Names → GenerateError → Prop
  | first {s : Stmt} {rest : List Stmt} {inLoop : Bool} {start : Nat} {names : Names} {cause : GenerateError} :
      StmtFails s inLoop start names cause → BlockFails (s :: rest) inLoop start names cause
  | rest {s : Stmt} {rest : List Stmt} {inLoop : Bool} {start : Nat} {first : List Draft} {names names₁ : Names}
      {cause : GenerateError} : StmtEmits s inLoop start names first names₁ →
      BlockFails rest inLoop (start + first.length) names₁ cause → BlockFails (s :: rest) inLoop start names cause

end

theorem Names.exprFails_of_exprCode {names : Names} {e : Expr} {cause : GenerateError}
    (h : names.exprCode e = .error cause) : ExprFails names.find? e names.temps cause := by
  simp only [Names.exprCode, bind_eq_error_iff, Prod.exists] at h
  obtain h | ⟨_, _, _, -, h⟩ := h
  · exact Ir.exprFails_of_exprCode e h
  · cases h

mutual

theorem stmtFails_of_stmtCode {inLoop : Bool} {start : Nat} {names : Names} {cause : GenerateError} :
    (s : Stmt) → stmtCode s inLoop start names = .error cause → StmtFails s inLoop start names cause
  | .cond test thenBlock elseBlock, h => by
      simp only [stmtCode, bind_eq_error_iff, Prod.exists, Names.exprCode_eq_ok_iff] at h
      obtain h | ⟨code, x, names₁, hcode, h | ⟨thenCode, names₂, hthen, h | ⟨_, _, -, h⟩⟩⟩ := h
      · exact .condTest (Names.exprFails_of_exprCode h)
      · exact .condThen hcode (blockFails_of_stmtsCode thenBlock h)
      · exact .condElse hcode rfl (blockEmits_of_stmtsCode thenBlock hthen) (blockFails_of_stmtsCode elseBlock h)
      · cases h
  | .loop test body, h => by
      simp only [stmtCode, bind_eq_error_iff, Prod.exists] at h
      obtain h | ⟨bodyCode, names₁, hbody, h | ⟨_, _, _, -, h⟩⟩ := h
      · exact .loopBody (blockFails_of_stmtsCode body h)
      · exact .loopTest (blockEmits_of_stmtsCode body hbody) (Names.exprFails_of_exprCode h)
      · cases h
  | .ret none, h => by
      rw [stmtCode] at h
      cases h
  | .ret (some value), h => by
      simp only [stmtCode, bind_eq_error_iff, Prod.exists] at h
      obtain h | ⟨_, _, _, -, h⟩ := h
      · exact .ret (Names.exprFails_of_exprCode h)
      · cases h
  | .leave, h => by
      rw [stmtCode] at h
      cases inLoop with
      | false =>
          cases h
          exact .leave
      | true => cases h
  | .assign name value, h => by
      simp only [stmtCode, bind_eq_error_iff, Prod.exists] at h
      obtain h | ⟨_, _, _, -, h⟩ := h
      · exact .assign (Names.exprFails_of_exprCode h)
      · cases h
  | .function name params body, h => by
      simp only [stmtCode, bind_eq_error_iff, Prod.exists] at h
      obtain h | ⟨_, _, -, h⟩ := h
      · exact .function (blockFails_of_stmtsCode body h)
      · cases h
  | .call callee args, h => by
      simp only [stmtCode, bind_eq_error_iff, Prod.exists] at h
      obtain h | ⟨code, xs, temps, hcode, h | ⟨_, _, -, h⟩⟩ := h
      · exact .callArgs (argsFails_of_argsCode args h)
      · exact .call (argsEmits_of_argsCode args hcode) h
      · cases h

theorem blockFails_of_stmtsCode {inLoop : Bool} {start : Nat} {names : Names} {cause : GenerateError} :
    (stmts : List Stmt) → stmtsCode stmts inLoop start names = .error cause → BlockFails stmts inLoop start names cause
  | [], h => by
      rw [stmtsCode] at h
      cases h
  | s :: rest, h => by
      simp only [stmtsCode, bind_eq_error_iff, Prod.exists] at h
      obtain h | ⟨first, names₁, hfirst, h | ⟨_, _, -, h⟩⟩ := h
      · exact .first (stmtFails_of_stmtCode s h)
      · exact .rest (stmtEmits_of_stmtCode s hfirst) (blockFails_of_stmtsCode rest h)
      · cases h

end

/-! ## Drafts -/

@[simp]
theorem map_close_complete (loopEnd : Nat) (code : Code) : (complete code).map (Draft.close loopEnd) = code := by
  rw [complete, List.map_map]
  exact List.map_id code

@[simp]
theorem length_complete (code : Code) : (complete code).length = code.length :=
  List.length_map _

end Scriptlet.Ir
