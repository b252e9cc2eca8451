import Mathlib.Tactic
import Scriptlet.Proofs.Ir.Blocks
import Scriptlet.Proofs.Ir.LinearForm

/-!
# Code of a renamed program

Variables are renamed by `r` and functions by `f`. The code of the renamed program is the code of the program with its
operands renamed and its callees. Temporaries, literals and the missing operand are no names of the program, so the
renaming `ρ` of operands that carries out `r` leaves them as they are. The functions that are known while code is
generated are renamed by an injective `φ` that carries out `f`, so a name is found where it was found before.
-/

namespace Scriptlet

/-! ## Renaming -/

mutual

def Expr.rename (r f : String → String) : Expr → Expr
  | .chain layer operands ops => .chain layer (Expr.renameAll r f operands) ops
  | .unary ops operand => .unary ops (operand.rename r f)
  | .name id => .name (r id)
  | .literal kind text => .literal kind text
  | .paren inner => .paren (inner.rename r f)
  | .call callee args => .call (f callee) (Expr.renameAll r f args)

def Expr.renameAll (r f : String → String) : List Expr → List Expr
  | [] => []
  | e :: es => e.rename r f :: Expr.renameAll r f es

end

mutual

def Stmt.rename (r f : String → String) : Stmt → Stmt
  | .cond test thenBlock elseBlock =>
    .cond (test.rename r f) (Stmt.renameBlock r f thenBlock) (Stmt.renameBlock r f elseBlock)
  | .loop test body => .loop (test.rename r f) (Stmt.renameBlock r f body)
  | .ret none => .ret none
  | .ret (some value) => .ret (some (value.rename r f))
  | .leave => .leave
  | .assign name value => .assign (r name) (value.rename r f)
  | .function name params body => .function (f name) (params.map r) (Stmt.renameBlock r f body)
  | .call callee args => .call (f callee) (Expr.renameAll r f args)

/-- Renames variables by `r` wherever they are read, assigned or passed, and functions by `f`. -/
def Stmt.renameBlock (r f : String → String) : List Stmt → List Stmt
  | [] => []
  | s :: rest => s.rename r f :: Stmt.renameBlock r f rest

end

namespace Ir

def CallSite.rename (f : String → String) (site : CallSite) : CallSite :=
  { site with callee := f site.callee }

def Rhs.rename (ρ f : String → String) : Rhs → Rhs
  | single x => single (ρ x)
  | unary op x => unary op (ρ x)
  | binary op x y => binary op (ρ x) (ρ y)
  | call site => call (site.rename f)

namespace Instruction

def rename (ρ f : String → String) : Instruction → Instruction
  | goto t => goto t
  | branch x t => branch (ρ x) t
  | assign x rhs => assign (ρ x) (rhs.rename ρ f)
  | ret x => ret (ρ x)
  | param x name => param (ρ x) (name.map ρ)
  | call site => call (site.rename f)
  | stop => stop
  | blank => blank

variable (ρ f : String → String) (i : Instruction)

@[simp]
theorem target?_rename : (i.rename ρ f).target? = i.target? := by
  cases i with
  | assign x rhs => cases rhs <;> rfl
  | _ => rfl

@[simp]
theorem live_rename : (i.rename ρ f).live = i.live := by
  cases i <;> rfl

@[simp]
theorem binds?_rename : (i.rename ρ f).binds? = i.binds?.map ρ := by
  cases i <;> rfl

@[simp]
theorem mapTarget_rename (g : Nat → Nat) : (i.rename ρ f).mapTarget g = (i.mapTarget g).rename ρ f := by
  cases i with
  | assign x rhs => cases rhs <;> rfl
  | _ => rfl

end Instruction

/-! ## Known functions -/

def Signature.rename (ρ : String → String) (signature : Signature) : Signature :=
  ⟨signature.params.map ρ, signature.entry⟩

def Scope.rename (φ ρ : String → String) (scope : Scope) : Scope :=
  scope.map (Prod.map φ (Signature.rename ρ))

def Names.rename (φ ρ : String → String) (names : Names) : Names :=
  ⟨names.temps, Scope.rename φ ρ names.current, names.enclosing.map (Scope.rename φ ρ)⟩

theorem Scope.lookup_rename {φ : String → String} (hφ : Function.Injective φ) (ρ : String → String)
    (scope : Scope) (g : String) :
    (Scope.rename φ ρ scope).lookup (φ g) = (scope.lookup g).map (Signature.rename ρ) := by
  induction scope with
  | nil => rfl
  | cons entry scope ih =>
      obtain ⟨name, signature⟩ := entry
      rw [Scope.rename, List.map_cons, Prod.map_apply, List.lookup_cons, List.lookup_cons]
      by_cases hname : g = name
      · subst hname
        simp
      · have hname' : φ g ≠ φ name := hφ.ne hname
        rw [beq_false_of_ne hname, beq_false_of_ne hname']
        exact ih

theorem Names.find?_rename {φ : String → String} (hφ : Function.Injective φ) (ρ : String → String)
    (names : Names) (g : String) : (names.rename φ ρ).find? (φ g) = (names.find? g).map (Signature.rename ρ) := by
  have hlookup : (fun scope : Scope => (Scope.rename φ ρ scope).lookup (φ g))
      = fun scope => (scope.lookup g).map (Signature.rename ρ) :=
    funext fun scope => Scope.lookup_rename hφ ρ scope g
  have hscopes : (names.rename φ ρ).current :: (names.rename φ ρ).enclosing
      = (names.current :: names.enclosing).map (Scope.rename φ ρ) := rfl
  rw [Names.find?, Names.find?, hscopes, List.findSome?_map, List.map_findSome?]
  exact congrArg (fun p => (names.current :: names.enclosing).findSome? p) hlookup

/-! ## Expressions -/

/-- Operands are renamed by `ρ` as variables are by `r`, and known functions by `φ` as functions are by `f`. -/
structure Carries (r f ρ φ : String → String) (mentions : List Mention) : Prop where
  temp : ∀ n, ρ (temp n) = Ir.temp n
  missing : ρ missing = Ir.missing
  injective : Function.Injective φ
  name : ∀ x, .name x ∈ mentions → ρ x = r x
  literal : ∀ text, .literal text ∈ mentions → ρ text = text
  function : ∀ g, .function g ∈ mentions → φ g = f g

section

variable {r f ρ φ : String → String}

theorem Carries.mono {mentions mentions' : List Mention} (h : Carries r f ρ φ mentions) (hsub : mentions' ⊆ mentions) :
    Carries r f ρ φ mentions' :=
  { h with
    name := fun x hx => h.name x (hsub hx)
    literal := fun text ht => h.literal text (hsub ht)
    function := fun g hg => h.function g (hsub hg) }

theorem Carries.left {mentions mentions' : List Mention} (h : Carries r f ρ φ (mentions ++ mentions')) :
    Carries r f ρ φ mentions :=
  h.mono (List.subset_append_left ..)

theorem Carries.right {mentions mentions' : List Mention} (h : Carries r f ρ φ (mentions ++ mentions')) :
    Carries r f ρ φ mentions' :=
  h.mono (List.subset_append_right ..)

theorem Carries.tail {m : Mention} {mentions : List Mention} (h : Carries r f ρ φ (m :: mentions)) :
    Carries r f ρ φ mentions :=
  h.mono (List.subset_cons_self ..)

/-- Functions are found under their new names, with their parameters renamed. -/
def FindsRenamed (ρ φ : String → String) (find find' : String → Option Signature) : Prop :=
  ∀ g, find' (φ g) = (find g).map (Signature.rename ρ)

variable {mentions : List Mention} {find find' : String → Option Signature}

theorem callCode_rename {g : String} (hc : Carries r f ρ φ mentions) (hg : .function g ∈ mentions)
    (hfind : FindsRenamed ρ φ find find') {xs : List String} {params : Code} {site : CallSite}
    (h : callCode find g xs = .ok (params, site)) :
    callCode find' (f g) (xs.map ρ) = .ok (params.map (Instruction.rename ρ f), site.rename f) := by
  have hfound : find' (f g) = (find g).map (Signature.rename ρ) := by rw [← hc.function g hg, hfind]
  obtain ⟨hnone, rfl, rfl⟩ | ⟨signature, hsome, hle, rfl, rfl⟩ := callCode_eq h
  · rw [callCode, hfound, hnone]
    simp [Instruction.rename, CallSite.rename]
  · have hsupplied : xs.map ρ ++ List.replicate (signature.params.length - xs.length) missing
        = (xs ++ List.replicate (signature.params.length - xs.length) missing).map ρ := by
      rw [List.map_append, List.map_replicate, hc.missing]
    rw [callCode, hfound, hsome]
    simp only [Option.map_some, Signature.rename, List.length_map]
    rw [if_neg (Nat.not_lt.2 hle), hsupplied, List.zipWith_map, List.map_zipWith]
    rfl

theorem unaryCode_rename (hc : Carries r f ρ φ mentions) (ops : List UnaryOp) (x : String) (temps : Nat) :
    unaryCode ops (ρ x) temps = ((unaryCode ops x temps).1.map (Instruction.rename ρ f), ρ (unaryCode ops x temps).2.1,
      (unaryCode ops x temps).2.2) := by
  induction ops generalizing x temps with
  | nil => rfl
  | cons op ops ih =>
      have hrest := ih (temp temps) (temps + 1)
      rw [hc.temp] at hrest
      rw [unaryCode, hrest, unaryCode, List.map_cons, Instruction.rename, Rhs.rename, hc.temp]

mutual

theorem ExprEmits.rename (hfind : FindsRenamed ρ φ find find') {e : Expr} {temps temps' : Nat} {code : Code}
    {x : String} :
    ExprEmits find e temps code x temps' → Carries r f ρ φ e.mentions →
    ExprEmits find' (e.rename r f) temps (code.map (Instruction.rename ρ f)) (ρ x) temps'
  | .chainNil, hc => by
      rw [Expr.rename, Expr.renameAll, hc.missing]
      exact .chainNil
  | .chain hfirst hrest, hc => by
      rw [Expr.mentions, Expr.allMentions] at hc
      rw [Expr.rename, Expr.renameAll, List.map_append]
      exact .chain (hfirst.rename hfind hc.left) (hrest.rename hfind hc.right)
  | @ExprEmits.unary _ ops _ _ mid _ y hfirst, hc => by
      rw [Expr.mentions] at hc
      have hunary : ExprEmits find' (.unary ops _) temps _ _ _ := .unary (hfirst.rename hfind hc)
      rw [unaryCode_rename hc ops y mid] at hunary
      rwa [Expr.rename, List.map_append]
  | @ExprEmits.name _ id _, hc => by
      rw [Expr.rename, ← hc.name id (List.mem_singleton_self _), hc.temp]
      simp only [List.map_cons, List.map_nil, Instruction.rename, Rhs.rename, hc.temp]
      exact .name
  | @ExprEmits.literal _ _ text _, hc => by
      rw [Expr.rename, hc.temp]
      simp only [List.map_cons, List.map_nil, Instruction.rename, Rhs.rename, hc.temp,
        hc.literal text (List.mem_singleton_self _)]
      exact .literal
  | .paren hinner, hc => by
      rw [Expr.mentions] at hc
      rw [Expr.rename]
      exact .paren (hinner.rename hfind hc)
  | .call hargs hcall, hc => by
      rw [Expr.mentions] at hc
      simp only [Expr.rename, List.map_append, List.map_cons, List.map_nil, Instruction.rename, Rhs.rename, hc.temp]
      exact .call (hargs.rename hfind hc.tail) (callCode_rename hc List.mem_cons_self hfind hcall)

theorem ChainEmits.rename (hfind : FindsRenamed ρ φ find find') {es : List Expr} {ops : List BinaryOp}
    {temps temps' : Nat} {code : Code} {x y : String} :
    ChainEmits find es ops x temps code y temps' → Carries r f ρ φ (Expr.allMentions es) →
    ChainEmits find' (Expr.renameAll r f es) ops (ρ x) temps (code.map (Instruction.rename ρ f)) (ρ y) temps'
  | .stop hstop, _ => .stop (hstop.imp_left fun hes => by rw [hes, Expr.renameAll])
  | @ChainEmits.cons _ _ _ _ _ _ mid _ _ _ _ _ _ hfirst hrest, hc => by
      rw [Expr.allMentions] at hc
      have hrest' := hrest.rename hfind hc.right
      rw [hc.temp] at hrest'
      simp only [Expr.renameAll, List.map_append, List.map_cons, Instruction.rename, Rhs.rename, hc.temp]
      exact .cons (hfirst.rename hfind hc.left) hrest'

theorem ArgsEmits.rename (hfind : FindsRenamed ρ φ find find') {es : List Expr} {temps temps' : Nat} {code : Code}
    {xs : List String} :
    ArgsEmits find es temps code xs temps' → Carries r f ρ φ (Expr.allMentions es) →
    ArgsEmits find' (Expr.renameAll r f es) temps (code.map (Instruction.rename ρ f)) (xs.map ρ) temps'
  | .nil, _ => by
      rw [Expr.renameAll]
      exact .nil
  | .cons hfirst hrest, hc => by
      rw [Expr.allMentions] at hc
      rw [Expr.renameAll, List.map_append, List.map_cons]
      exact .cons (hfirst.rename hfind hc.left) (hrest.rename hfind hc.right)

end

/-! ## Statements -/

def Draft.rename (ρ f : String → String) : Draft → Draft
  | done i => done (i.rename ρ f)
  | leave => leave

theorem close_rename (ρ f : String → String) (loopEnd : Nat) :
    Draft.close loopEnd ∘ Draft.rename ρ f = Instruction.rename ρ f ∘ Draft.close loopEnd := by
  funext draft
  cases draft <;> rfl

@[simp]
theorem complete_rename (ρ f : String → String) (code : Code) :
    (complete code).map (Draft.rename ρ f) = complete (code.map (Instruction.rename ρ f)) := by
  rw [complete, complete, List.map_map, List.map_map]
  rfl

@[simp]
theorem padded_rename (ρ f : String → String) (drafts : List Draft) :
    padded (drafts.map (Draft.rename ρ f)) = (padded drafts).map (Draft.rename ρ f) := by
  cases drafts <;> rfl

theorem Names.Emits.rename {names names' : Names} {e : Expr} {code : Code} {x : String}
    (h : names.Emits e code x names') (hc : Carries r f ρ φ e.mentions) :
    (names.rename φ ρ).Emits (e.rename r f) (code.map (Instruction.rename ρ f)) (ρ x) (names'.rename φ ρ) := by
  obtain ⟨temps, hcode, rfl⟩ := h
  exact ⟨temps, hcode.rename (names.find?_rename hc.injective ρ) hc, rfl⟩

mutual

theorem StmtEmits.rename {s : Stmt} {inLoop : Bool} {start : Nat} {names names' : Names} {drafts : List Draft} :
    StmtEmits s inLoop start names drafts names' → Carries r f ρ φ s.mentions →
    StmtEmits (s.rename r f) inLoop start (names.rename φ ρ) (drafts.map (Draft.rename ρ f)) (names'.rename φ ρ)
  | .cond htest hthenStart hthen helseStart helse hfinish, hc => by
      rw [Stmt.mentions] at hc
      simp only [Stmt.rename, List.map_append, complete_rename, ← padded_rename, List.map_cons, List.map_nil,
        Instruction.rename]
      refine .cond (htest.rename hc.left) ?_ (hthen.rename hc.right.left) ?_ (helse.rename hc.right.right) ?_
      · rwa [List.length_map]
      · rwa [padded_rename, List.length_map]
      · rwa [padded_rename, List.length_map]
  | .loop hbody htestStart htest hfinish, hc => by
      rw [Stmt.mentions] at hc
      simp only [Stmt.rename, complete_rename, List.map_append, List.map_cons, List.map_nil, Instruction.rename,
        List.map_map, ← close_rename]
      rw [← List.map_map]
      refine .loop (hbody.rename hc.right) ?_ (htest.rename hc.left) ?_
      · rwa [List.length_map]
      · rwa [List.length_map]
  | .retNone, hc => by
      rw [Stmt.rename, complete_rename, List.map_singleton, Instruction.rename, hc.missing]
      exact .retNone
  | .ret hvalue, hc => by
      rw [Stmt.mentions] at hc
      rw [Stmt.rename, complete_rename, List.map_append]
      exact .ret (hvalue.rename hc)
  | .leave, _ => .leave
  | @StmtEmits.assign name _ _ _ _ _ _ _ hvalue, hc => by
      rw [Stmt.mentions] at hc
      rw [Stmt.rename, complete_rename, List.map_append, ← hc.name name List.mem_cons_self]
      exact .assign (hvalue.rename hc.tail)
  | @StmtEmits.function name params _ _ _ _ _ _ _ hbody hfinish, hc => by
      rw [Stmt.mentions] at hc
      have hparams : params.map r = params.map ρ :=
        List.map_congr_left fun p hp => (hc.tail.left.name p (List.mem_map_of_mem hp)).symm
      have hfunction : StmtEmits (.function (φ name) (params.map ρ) _) inLoop start (names.rename φ ρ) _ _ :=
        .function (hbody.rename hc.tail.right) rfl
      rw [List.length_map, ← hfinish] at hfunction
      simp only [Stmt.rename, List.map_append, complete_rename, List.map_cons, List.map_nil, Instruction.rename,
        hc.missing, hparams, ← hc.function name List.mem_cons_self]
      exact hfunction
  | .call hargs hcall, hc => by
      rw [Stmt.mentions] at hc
      have hfind : FindsRenamed ρ φ names.find? (names.rename φ ρ).find? := names.find?_rename hc.injective ρ
      have hcall' := callCode_rename hc List.mem_cons_self hfind hcall
      simp only [Stmt.rename, complete_rename, List.map_append, List.map_singleton, Instruction.rename]
      exact .call (hargs.rename hfind hc.tail) hcall'

theorem BlockEmits.rename {stmts : List Stmt} {inLoop : Bool} {start : Nat} {names names' : Names}
    {drafts : List Draft} :
    BlockEmits stmts inLoop start names drafts names' → Carries r f ρ φ (Stmt.blockMentions stmts) →
    BlockEmits (Stmt.renameBlock r f stmts) inLoop start (names.rename φ ρ) (drafts.map (Draft.rename ρ f))
      (names'.rename φ ρ)
  | .nil, _ => by
      rw [Stmt.renameBlock]
      exact .nil
  | .cons hfirst hmore, hc => by
      rw [Stmt.blockMentions] at hc
      have hmore' := hmore.rename hc.right
      rw [← List.length_map (Draft.rename ρ f)] at hmore'
      rw [Stmt.renameBlock, List.map_append]
      exact .cons (hfirst.rename hc.left) hmore'

end

/-! ## Programs -/

theorem arena_rename {program : List Stmt} {code : Code} (hc : Carries r f ρ φ (Stmt.blockMentions program))
    (h : arena program = .ok code) :
    arena (Stmt.renameBlock r f program) = .ok (code.map (Instruction.rename ρ f)) := by
  obtain ⟨drafts, names, hdrafts, rfl⟩ := arena_eq_ok_iff.1 h
  refine arena_eq_ok_iff.2 ⟨drafts.map (Draft.rename ρ f), names.rename φ ρ, hdrafts.rename hc, ?_⟩
  rw [List.map_append, List.map_map, ← close_rename, ← List.map_map]
  rfl

theorem liveBefore_rename (ρ f : String → String) (code : Code) :
    Code.liveBefore (code.map (Instruction.rename ρ f)) = code.liveBefore := by
  funext place
  rw [Code.liveBefore, Code.liveBefore, ← List.map_take, List.countP_map]
  exact congrArg (fun p => (code.take place).countP p) (funext fun i => Instruction.live_rename ρ f i)

theorem relocated_rename (ρ f : String → String) (g : Nat → Nat) (code : Code) :
    Code.relocated g (code.map (Instruction.rename ρ f)) = (code.relocated g).map (Instruction.rename ρ f) := by
  have hlive : Instruction.live ∘ Instruction.rename ρ f = Instruction.live :=
    funext fun i => Instruction.live_rename ρ f i
  have htarget : Instruction.mapTarget g ∘ Instruction.rename ρ f = Instruction.rename ρ f ∘ Instruction.mapTarget g :=
    funext fun i => Instruction.mapTarget_rename ρ f i g
  simp only [Code.relocated, List.filter_map, hlive, List.map_map, htarget]

theorem linearize_rename (ρ f : String → String) {code linear : Code} (h : code.linearize = .ok linear) :
    Code.linearize (code.map (Instruction.rename ρ f)) = .ok (linear.map (Instruction.rename ρ f)) := by
  have htargets := Code.targets_of_linearize h
  have hlinear := (Code.linearize_of_targets htargets).1
  rw [h] at hlinear
  cases hlinear
  have htargets' : ∀ i ∈ code.map (Instruction.rename ρ f), ∀ t, i.target? = some t →
      ∃ k ∈ (code.map (Instruction.rename ρ f)).drop t, k.live = true := by
    intro i hi t ht
    obtain ⟨i, hmem, rfl⟩ := List.mem_map.1 hi
    rw [Instruction.target?_rename] at ht
    obtain ⟨k, hk, hlive⟩ := htargets i hmem t ht
    rw [← List.map_drop]
    exact ⟨_, List.mem_map_of_mem hk, by rwa [Instruction.live_rename]⟩
  rw [(Code.linearize_of_targets htargets').1, liveBefore_rename, relocated_rename]

/-- The code of a renamed program. -/
theorem generate_rename {program : List Stmt} {code : Code} (hc : Carries r f ρ φ (Stmt.blockMentions program))
    (h : generate program = .ok code) :
    generate (Stmt.renameBlock r f program) = .ok (code.map (Instruction.rename ρ f)) := by
  obtain ⟨blanks, harena, hlinear⟩ := exists_arena_of_generate h
  rw [generate, arena_rename hc harena]
  exact congrArg (Except.mapError GenerateError.linear) (linearize_rename ρ f hlinear)

end

end Ir

end Scriptlet
