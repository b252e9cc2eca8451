import Mathlib.Tactic
import Scriptlet.Proofs.Interpreter.Functions
import Scriptlet.Proofs.Ir.GeneratedBalance
import Scriptlet.Proofs.Syntax.Mentions

/-!
# Blocks in place

Where the code of statements stands in the code of a program: one rule for each form of statement, which tells where its
parts are and what its jumps go to. What holds of all code of a program is shown along these rules.
-/

namespace Scriptlet.Ir

open Interpreter (CodeAt)

/-! ## Expressions -/

/-- A call of the function that is found, or of a builtin if there is none. -/
def CallSite.Follows (find : String → Option Signature) (site : CallSite) : Prop :=
  (find site.callee = none ∧ site.target = none)
    ∨ ∃ signature, find site.callee = some signature ∧ site.argc = signature.params.length
      ∧ site.target = some signature.entry

/-- Instructions of expressions: they compute something, pass a parameter, or call a function that is mentioned. -/
inductive Evaluates (find : String → Option Signature) (mentions : List Mention) : Instruction → Prop
  | compute {x : String} {rhs : Rhs} : (∀ site, rhs ≠ .call site) → Evaluates find mentions (.assign x rhs)
  | pass {x : String} {name : Option String} : Evaluates find mentions (.param x name)
  | call {i : Instruction} {site : CallSite} : i.callSite? = some site → site.Follows find →
      .function site.callee ∈ mentions → Evaluates find mentions i

section Expressions

variable {find : String → Option Signature} {mentions mentions' : List Mention}

theorem Evaluates.mono {i : Instruction} (h : Evaluates find mentions i) (hsub : mentions ⊆ mentions') :
    Evaluates find mentions' i := by
  cases h with
  | compute hrhs => exact .compute hrhs
  | pass => exact .pass
  | call hsite hfollows hmem => exact .call hsite hfollows (hsub hmem)

theorem evaluates_call {callee : String} {args : List String} {params : Code} {site : CallSite}
    (h : callCode find callee args = .ok (params, site)) (hcallee : .function callee ∈ mentions) {i : Instruction}
    (hsite : i.callSite? = some site) : ∀ j ∈ params ++ [i], Evaluates find mentions j := by
  intro j hj
  rcases List.mem_append.1 hj with hj | hj
  · rcases callCode_eq h with ⟨-, rfl, -⟩ | ⟨signature, -, -, rfl, -⟩
    · obtain ⟨x, -, rfl⟩ := List.mem_map.1 hj
      exact .pass
    · obtain ⟨q, x, rfl⟩ := exists_param_of_mem_zipWith hj
      exact .pass
  · rw [List.mem_singleton.1 hj]
    rcases callCode_eq h with ⟨hfind, -, rfl⟩ | ⟨signature, hfind, -, -, rfl⟩
    · exact .call hsite (.inl ⟨hfind, rfl⟩) hcallee
    · exact .call hsite (.inr ⟨signature, hfind, rfl, rfl⟩) hcallee

theorem evaluates_unaryCode (ops : List UnaryOp) (x : String) (temps : Nat) :
    ∀ i ∈ (unaryCode ops x temps).1, Evaluates find mentions i := by
  induction ops generalizing x temps with
  | nil => exact fun i hi => absurd hi List.not_mem_nil
  | cons op ops ih => exact List.forall_mem_cons.2 ⟨.compute (by simp), ih (temp temps) (temps + 1)⟩

mutual

theorem evaluates_expr {e : Expr} {temps temps' : Nat} {code : Code} {x : String} :
    ExprEmits find e temps code x temps' → ∀ i ∈ code, Evaluates find e.mentions i
  | .chainNil => by simp
  | .chain hfirst hmore => by
      rw [Expr.mentions, Expr.allMentions, List.forall_mem_append]
      exact ⟨fun i hi => (evaluates_expr hfirst i hi).mono (List.subset_append_left _ _),
        fun i hi => (evaluates_chain hmore i hi).mono (List.subset_append_right _ _)⟩
  | .unary hfirst => by
      rw [Expr.mentions, List.forall_mem_append]
      exact ⟨evaluates_expr hfirst, evaluates_unaryCode _ _ _⟩
  | .name => List.forall_mem_singleton.2 (.compute (by simp))
  | .literal => List.forall_mem_singleton.2 (.compute (by simp))
  | .paren hinner => by
      rw [Expr.mentions]
      exact evaluates_expr hinner
  | .call hfirst hcall => by
      rw [Expr.mentions, List.forall_mem_append]
      exact ⟨fun i hi => (evaluates_args hfirst i hi).mono (List.subset_cons_self _ _),
        evaluates_call hcall List.mem_cons_self rfl⟩

theorem evaluates_chain {es : List Expr} {ops : List BinaryOp} {temps temps' : Nat} {code : Code} {x y : String} :
    ChainEmits find es ops y temps code x temps' → ∀ i ∈ code, Evaluates find (Expr.allMentions es) i
  | .stop _ => by simp
  | .cons hfirst hmore => by
      rw [Expr.allMentions, List.forall_mem_append, List.forall_mem_cons]
      exact ⟨fun i hi => (evaluates_expr hfirst i hi).mono (List.subset_append_left _ _), .compute (by simp),
        fun i hi => (evaluates_chain hmore i hi).mono (List.subset_append_right _ _)⟩

theorem evaluates_args {args : List Expr} {temps temps' : Nat} {code : Code} {xs : List String} :
    ArgsEmits find args temps code xs temps' → ∀ i ∈ code, Evaluates find (Expr.allMentions args) i
  | .nil => by simp
  | .cons hfirst hmore => by
      rw [Expr.allMentions, List.forall_mem_append]
      exact ⟨fun i hi => (evaluates_expr hfirst i hi).mono (List.subset_append_left _ _),
        fun i hi => (evaluates_args hmore i hi).mono (List.subset_append_right _ _)⟩

end

theorem Names.Emits.evaluates {names names' : Names} {e : Expr} {part : Code} {x : String}
    (h : names.Emits e part x names') :
    names'.find? = names.find? ∧ ∀ i ∈ part, Evaluates names.find? e.mentions i := by
  obtain ⟨temps, hcode, rfl⟩ := h
  exact ⟨rfl, evaluates_expr hcode⟩

end Expressions

/-! ## Statements -/

section CodeAt

variable {code part more : Code} {start : Nat} {i : Instruction}

theorem codeAt_append (h : CodeAt code start part) (hmore : CodeAt code (start + part.length) more) :
    CodeAt code start (part ++ more) := by
  intro k j hj
  rcases Nat.lt_or_ge k part.length with hlt | hge
  · rw [List.getElem?_append_left hlt] at hj
    exact h k j hj
  · obtain ⟨n, rfl⟩ := Nat.exists_eq_add_of_le hge
    rw [List.getElem?_append_right hge, Nat.add_sub_cancel_left] at hj
    rw [← Nat.add_assoc]
    exact hmore n j hj

theorem codeAt_singleton (h : code[start]? = some i) : CodeAt code start [i] := by
  intro k j hj
  cases k with
  | zero => rwa [← Option.some.inj hj]
  | succ k => cases hj

theorem mem_of_codeAt {place : Nat} (hcode : CodeAt code start part) (hstart : start ≤ place)
    (hstop : place < start + part.length) (hi : code[place]? = some i) : i ∈ part := by
  obtain ⟨k, rfl⟩ := Nat.exists_eq_add_of_le hstart
  have hlt : k < part.length := by omega
  have hat := hcode k part[k] (List.getElem?_eq_getElem hlt)
  rw [hi, Option.some.injEq] at hat
  exact hat ▸ List.getElem_mem hlt

end CodeAt

/-- The code of statements stands in `code`, from `start` up to `stop`; the loop around them ends at `exit`, if there is
one. -/
inductive BlockAt (code : Code) : Option Nat → List Stmt → Nat → Nat → Names → Names → Prop
  | nil {exit : Option Nat} {start : Nat} {names : Names} : BlockAt code exit [] start start names names
  /-- A blank may follow. -/
  | blank {exit : Option Nat} {stmts : List Stmt} {start stop : Nat} {names names' : Names} :
      BlockAt code exit stmts start stop names names' → code[stop]? = some .blank →
      BlockAt code exit stmts start (stop + 1) names names'
  | cons {exit : Option Nat} {s : Stmt} {rest : List Stmt} {start mid stop : Nat} {names names₁ names' : Names} :
      BlockAt code exit [s] start mid names names₁ → BlockAt code exit rest mid stop names₁ names' →
      BlockAt code exit (s :: rest) start stop names names'
  | cond {exit : Option Nat} {test : Expr} {thenBlock elseBlock : List Stmt} {start thenStop finish : Nat} {part : Code}
      {x : String} {names names₁ names₂ names' : Names} :
      names.Emits test part x names₁ →
      CodeAt code start (part ++ [.branch x (start + part.length + 2), .goto (thenStop + 1)]) →
      BlockAt code exit thenBlock (start + part.length + 2) thenStop names₁ names₂ →
      code[thenStop]? = some (.goto finish) →
      BlockAt code exit elseBlock (thenStop + 1) finish names₂ names' → code[finish]? = some .blank →
      BlockAt code exit [.cond test thenBlock elseBlock] start (finish + 1) names names'
  | loop {exit : Option Nat} {test : Expr} {body : List Stmt} {start testStart : Nat} {part : Code} {x : String}
      {names names₁ names' : Names} :
      code[start]? = some (.goto testStart) →
      BlockAt code (some (testStart + part.length + 1)) body (start + 1) testStart names names₁ →
      names₁.Emits test part x names' →
      CodeAt code testStart (part ++ [.branch x (start + 1), .blank]) →
      BlockAt code exit [.loop test body] start (testStart + part.length + 2) names names'
  | retNone {exit : Option Nat} {start : Nat} {names : Names} : code[start]? = some (.ret missing) →
      BlockAt code exit [.ret none] start (start + 1) names names
  | ret {exit : Option Nat} {value : Expr} {start : Nat} {part : Code} {x : String} {names names' : Names} :
      names.Emits value part x names' → CodeAt code start (part ++ [.ret x]) →
      BlockAt code exit [.ret (some value)] start (start + part.length + 1) names names'
  | leave {finish start : Nat} {names : Names} : code[start]? = some (.goto finish) →
      BlockAt code (some finish) [.leave] start (start + 1) names names
  | assign {exit : Option Nat} {name : String} {value : Expr} {start : Nat} {part : Code} {x : String}
      {names names' : Names} :
      names.Emits value part x names' → CodeAt code start (part ++ [.assign name (.single x)]) →
      BlockAt code exit [.assign name value] start (start + part.length + 1) names names'
  | function {exit : Option Nat} {name : String} {params : List String} {body : List Stmt} {start loopEnd : Nat}
      {drafts : List Draft} {names inner : Names} :
      code[start]? = some (.goto (start + 2 + drafts.length + 1)) → code[start + 1]? = some .blank →
      BlockEmits body false (start + 2) (names.declare name ⟨params, start + 1⟩).enter drafts inner →
      CodeAt code (start + 2) (drafts.map (Draft.close loopEnd)) →
      BlockAt code none body (start + 2) (start + 2 + drafts.length) (names.declare name ⟨params, start + 1⟩).enter inner →
      code[start + 2 + drafts.length]? = some (.ret missing) → code[start + 2 + drafts.length + 1]? = some .blank →
      BlockAt code exit [.function name params body] start (start + 2 + drafts.length + 2) names
        { names.declare name ⟨params, start + 1⟩ with temps := inner.temps }
  | call {exit : Option Nat} {callee : String} {args : List Expr} {start temps : Nat} {part params : Code}
      {xs : List String} {site : CallSite} {names : Names} :
      ArgsEmits names.find? args names.temps part xs temps →
      callCode names.find? callee xs = .ok (params, site) → CodeAt code start (part ++ (params ++ [.call site])) →
      BlockAt code exit [.call callee args] start (start + part.length + params.length + 1) names { names with temps }

section Statements

variable {code : Code}

theorem BlockAt.le {exit : Option Nat} {stmts : List Stmt} {start stop : Nat} {names names' : Names}
    (h : BlockAt code exit stmts start stop names names') : start ≤ stop := by
  induction h <;> omega

theorem BlockAt.padded {exit : Option Nat} {stmts : List Stmt} {start loopEnd : Nat} {drafts : List Draft}
    {names names' : Names} (h : BlockAt code exit stmts start (start + drafts.length) names names')
    (hcode : CodeAt code start ((padded drafts).map (Draft.close loopEnd))) :
    BlockAt code exit stmts start (start + (padded drafts).length) names names' := by
  cases drafts with
  | nil => exact h.blank hcode.head
  | cons _ _ => exact h

/-- The same, up to a place that is counted otherwise. -/
theorem BlockAt.upTo {exit : Option Nat} {stmts : List Stmt} {start stop stop' : Nat} {names names' : Names}
    (h : BlockAt code exit stmts start stop names names') (hstop : stop = stop') :
    BlockAt code exit stmts start stop' names names' :=
  hstop ▸ h

mutual

theorem StmtEmits.blockAt {s : Stmt} {inLoop : Bool} {exit : Option Nat} {start loopEnd : Nat} {names names' : Names}
    {drafts : List Draft} :
    StmtEmits s inLoop start names drafts names' → (inLoop = true → exit = some loopEnd) →
    CodeAt code start (drafts.map (Draft.close loopEnd)) →
    BlockAt code exit [s] start (start + drafts.length) names names'
  | .cond htest hthenStart hthen helseStart helse hfinish, hexit, hcode => by
      have hat := Interpreter.condAt_of_codeAt hthenStart helseStart hfinish hcode
      have hthenAt := (hthen.blockAt hexit hat.thenBlock.of_padded).padded hat.thenBlock
      have helseAt := (helse.blockAt hexit hat.elseBlock.of_padded).padded hat.elseBlock
      rw [List.map_append, map_close_complete] at hcode
      subst hthenStart helseStart hfinish
      refine (BlockAt.cond htest hcode.left hthenAt hat.leave helseAt hat.blank).upTo ?_
      simp only [List.length_append, length_complete, List.length_cons, List.length_nil]
      omega
  | .loop hbody htestStart htest hfinish, _, hcode => by
      have hat := Interpreter.loopAt_of_codeAt htestStart hfinish hcode
      have hbodyAt := hbody.blockAt (fun _ => rfl) hat.body
      rw [map_close_complete] at hcode
      subst htestStart hfinish
      refine (BlockAt.loop hat.skip hbodyAt htest (hcode.tail.right_at (by rw [List.length_map]))).upTo ?_
      simp only [length_complete, List.length_append, List.length_map, List.length_cons, List.length_nil]
      omega
  | .retNone, _, hcode => .retNone hcode.head
  | .ret hvalue, _, hcode => by
      rw [map_close_complete] at hcode
      refine (BlockAt.ret hvalue hcode).upTo ?_
      rw [length_complete, List.length_append, List.length_singleton, Nat.add_assoc]
  | .leave, hexit, hcode => by
      rw [hexit rfl]
      exact .leave hcode.head
  | .assign hvalue, _, hcode => by
      rw [map_close_complete] at hcode
      refine (BlockAt.assign hvalue hcode).upTo ?_
      rw [length_complete, List.length_append, List.length_singleton, Nat.add_assoc]
  | @StmtEmits.function _ _ body _ _ _ bodyCode _ _ hbody hfinish, _, hcode => by
      simp only [List.map_append, map_close_complete] at hcode
      have hbodyAt : BlockAt code none body (start + 2) _ _ _ := hbody.blockAt (by simp) hcode.right.left
      have hend : CodeAt code (start + 2 + bodyCode.length) [.ret missing, .blank] :=
        hcode.right.right_at (by rw [List.length_map]; rfl)
      subst hfinish
      refine (BlockAt.function hcode.head hcode.tail.head hbody hcode.right.left hbodyAt hend.head
        hend.tail.head).upTo ?_
      simp only [List.length_append, length_complete, List.length_cons, List.length_nil]
      omega
  | .call hargs hcall, _, hcode => by
      rw [map_close_complete] at hcode
      refine (BlockAt.call hargs hcall hcode).upTo ?_
      simp only [length_complete, List.length_append, List.length_singleton]
      omega

theorem BlockEmits.blockAt {stmts : List Stmt} {inLoop : Bool} {exit : Option Nat} {start loopEnd : Nat}
    {names names' : Names} {drafts : List Draft} :
    BlockEmits stmts inLoop start names drafts names' → (inLoop = true → exit = some loopEnd) →
    CodeAt code start (drafts.map (Draft.close loopEnd)) →
    BlockAt code exit stmts start (start + drafts.length) names names'
  | .nil, _, _ => .nil
  | .cons hfirst hmore, hexit, hcode => by
      rw [List.map_append] at hcode
      have hmoreAt := hmore.blockAt hexit (hcode.right_at (by rw [List.length_map]))
      refine ((hfirst.blockAt hexit hcode.left).cons hmoreAt).upTo ?_
      rw [List.length_append, Nat.add_assoc]

end

/-- The code of a program is that of its statements and an instruction that ends it. -/
theorem blockAt_of_arena {program : List Stmt} (h : arena program = .ok code) :
    ∃ size drafts names, BlockEmits program false 0 .initial drafts names
      ∧ BlockAt code none program 0 size .initial names ∧ code.length = size + 1 ∧ code[size]? = some .stop := by
  obtain ⟨drafts, names, hdrafts, hcode⟩ := arena_eq_ok_iff.1 h
  have hat : CodeAt code 0 (drafts.map (Draft.close pending) ++ [.stop]) := by
    intro k i hk
    rwa [Nat.zero_add, hcode]
  refine ⟨drafts.length, drafts, names, hdrafts, ?_, by simp [hcode], by simp [hcode]⟩
  exact (hdrafts.blockAt (by simp) hat.left).upTo (Nat.zero_add _)

theorem lt_or_eq_stop {size place : Nat} {i : Instruction} (hlength : code.length = size + 1)
    (hstop : code[size]? = some .stop) (hi : code[place]? = some i) : place < size ∨ place = size ∧ i = .stop := by
  have hlt : place < code.length := (List.getElem?_eq_some_iff.1 hi).1
  rcases Nat.lt_succ_iff_lt_or_eq.1 (hlength ▸ hlt) with hlt | rfl
  · exact .inl hlt
  · rw [hi, Option.some.injEq] at hstop
    exact .inr ⟨rfl, hstop⟩

theorem exists_arena_of_generate {program : List Stmt} {linear : Code} (h : generate program = .ok linear) :
    ∃ code, arena program = .ok code ∧ code.linearize = .ok linear := by
  rw [generate, bind_eq_ok_iff] at h
  obtain ⟨code, hcode, h⟩ := h
  refine ⟨code, hcode, ?_⟩
  cases hlinear : code.linearize with
  | error e => rw [hlinear] at h; cases h
  | ok linear' => rw [hlinear] at h; cases h; rfl

end Statements

end Scriptlet.Ir
