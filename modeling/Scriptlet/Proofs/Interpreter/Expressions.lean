import Mathlib.Tactic
import Scriptlet.Proofs.Interpreter.Operands
import Scriptlet.Proofs.Syntax.Texts

/-!
# Expressions and their code

The code of an expression runs to its end and leaves the value of the expression in its operand. On the way it changes
only temporaries that were not in use before.
-/

namespace Scriptlet.Interpreter

open Ir (Code Instruction Rhs CallSite Signature State Activation temp missing readOperand)

/-- What names and literals of a program look like: names are variables and no temporaries. -/
def programTexts : Texts where
  name x := Bytecode.isVariable x = true ∧ Stable 0 x
  literal := LiteralText

variable {σ : Type}

/-! ## Where code comes to -/

/-- Code comes to its end, has changed only new temporaries, and the operands `xs` hold the values `vs`. -/
def Lands (callers : List (Nat × Activation)) (finish temps : Nat) (ir : Env) (temps' : Nat) (xs : List String)
    (vs : List Value) (console : σ) (s : State σ) : Prop :=
  ∃ ir', s = resting callers finish ir' console ∧ Agree temps ir ir' ∧ xs.map (readOperand Value.reread ir') = vs
    ∧ temps ≤ temps' ∧ ∀ x ∈ xs, Stable temps' x

section Lands

variable {callers : List (Nat × Activation)} {finish temps mid temps' : Nat} {ir ir' : Env} {xs : List String}
  {vs : List Value} {console : σ} {s : State σ}

theorem lands_refl (hxs : ∀ x ∈ xs, Stable temps x) :
    Lands callers finish temps ir temps xs (xs.map (readOperand Value.reread ir)) console
      (resting callers finish ir console) :=
  ⟨ir, rfl, .refl temps ir, rfl, le_rfl, hxs⟩

theorem Lands.after (h : Lands callers finish mid ir' temps' xs vs console s) (hle : temps ≤ mid)
    (hagree : Agree temps ir ir') : Lands callers finish temps ir temps' xs vs console s := by
  obtain ⟨ir'', hs, hagree', hvs, hle', hxs⟩ := h
  exact ⟨ir'', hs, hagree.trans (hagree'.mono hle), hvs, hle.trans hle', hxs⟩

/-- An operand that holds a value keeps it while others get theirs. -/
theorem Lands.cons {x : String} (h : Lands callers finish mid ir' temps' xs vs console s) (hx : Stable mid x) :
    Lands callers finish mid ir' temps' (x :: xs) (readOperand Value.reread ir' x :: vs) console s := by
  obtain ⟨ir'', hs, hagree, hvs, hle, hxs⟩ := h
  refine ⟨ir'', hs, hagree, ?_, hle, List.forall_mem_cons.2 ⟨hx.mono hle, hxs⟩⟩
  rw [List.map_cons, hvs, hagree.readOperand_eq hx]

theorem lands_temp (v : Value) :
    Lands callers finish temps ir (temps + 1) [temp temps] [v] console
      (resting callers finish (ir.set (temp temps) v) console) := by
  refine ⟨_, rfl, agree_set_temp temps ir v, ?_, Nat.le_succ temps, ?_⟩
  · rw [List.map_cons, readOperand_temp, Env.set_same, List.map_nil]
  · exact List.forall_mem_singleton.2 (stable_temp temps)

end Lands

variable [Streams σ]

/-! ## Calls -/

/-- Where code pushes the parameters of a call and makes it, it does what `call` does. -/
def CallsAs (code : Code) (limit fuel : Nat) (callers : List (Nat × Activation)) (find : String → Option Signature)
    (call : String → List Value → Eval σ Value) : Prop :=
  ∀ {callee : String} {xs : List String} {params : Code} {site : CallSite} {i : Instruction} {place : Nat} {ir : Env}
    (console : σ), Ir.callCode find callee xs = .ok (params, site) → i.callSite? = some site →
    CodeAt code place (params ++ [i]) →
    Runs code limit fuel (resting callers place ir console) (call callee (xs.map (readOperand Value.reread ir)) console)
      fun v console' s => s = (resting callers (place + params.length) ir console').deliver i.binds? v

/-! ## Expressions -/

section Expressions

variable {code : Code} {limit fuel : Nat} {callers : List (Nat × Activation)} {find : String → Option Signature}
  {call : String → List Value → Eval σ Value}

/-- Code that goes on where other code has landed. -/
theorem Runs.andThen {α β : Type} {x : Eval σ α} {g : α → Eval σ β} {vs : α → List Value} {ws : β → List Value}
    {xs ys : List String} {s : State σ} {place finish temps mid temps' : Nat} {ir : Env} {console : σ}
    (hx : Runs code limit fuel s (x console) fun a => Lands callers place temps ir mid xs (vs a))
    (hg : ∀ a ir' console', Agree temps ir ir' → (∀ y ∈ xs, Stable mid y) → xs.map (readOperand Value.reread ir') = vs a →
      Runs code limit fuel (resting callers place ir' console') (g a console')
        fun b => Lands callers finish mid ir' temps' ys (ws b)) :
    Runs code limit fuel s ((x >>= g) console) fun b => Lands callers finish temps ir temps' ys (ws b) := by
  refine hx.bind ?_
  rintro a console' _ ⟨ir', rfl, hagree, hvs, hle, hxs⟩
  refine (hg a ir' console' hagree hxs hvs).weaken ?_
  intro b _ _ hlands
  exact hlands.after hle hagree

theorem runs_temp {place temps : Nat} {ir : Env} {rhs : Rhs} {r : Except RuntimeError Value} (console : σ)
    (hi : code[place]? = some (.assign (temp temps) rhs))
    (hstep : (Instruction.assign (temp temps) rhs).perform Value.reread code limit (resting callers place ir console)
      = some ((resting callers place ir console).assign (temp temps) r)) :
    Runs code limit fuel (resting callers place ir console) (Eval.lift r console)
      fun v => Lands callers (place + 1) temps ir (temps + 1) [temp temps] [v] := by
  refine (runs_assign hi nofun hstep).weaken ?_
  rintro v console' s rfl
  exact lands_temp v

omit [Streams σ] in
theorem lift_bind (r : Except RuntimeError Value) (f : Value → Except RuntimeError Value) :
    (Eval.lift (r >>= f) : Eval σ Value) = Eval.lift r >>= fun v => Eval.lift (f v) := by
  cases r <;> rfl

theorem runs_unaryCode (ops : List UnaryOp) {x : String} {temps place : Nat} {ir : Env} (console : σ)
    (hx : Stable temps x) (hcode : CodeAt code place (Ir.unaryCode ops x temps).1) :
    Runs code limit fuel (resting callers place ir console)
      (Eval.lift (applyAll ops (readOperand Value.reread ir x)) console)
      fun v => Lands callers (place + (Ir.unaryCode ops x temps).1.length) temps ir (Ir.unaryCode ops x temps).2.2
        [(Ir.unaryCode ops x temps).2.1] [v] := by
  induction ops generalizing x temps place ir console with
  | nil => exact .ok (lands_refl (List.forall_mem_singleton.2 hx))
  | cons op ops ih =>
      have hlength : place + (Ir.unaryCode (op :: ops) x temps).1.length
          = place + 1 + (Ir.unaryCode ops (temp temps) (temps + 1)).1.length := by
        rw [Ir.unaryCode, List.length_cons, Nat.add_comm _ 1, ← Nat.add_assoc]
      rw [applyAll, lift_bind, hlength]
      refine (runs_temp console hcode.head rfl).andThen ?_
      intro v ir' console' _ _ hv
      cases hv
      exact ih console' (stable_temp temps) hcode.tail

mutual

theorem runs_expr (hcalls : CallsAs code limit fuel callers find call) {env : Env} {e : Expr} {part : Code} {x : String}
    {temps temps' place : Nat} {ir : Env} :
    Ir.ExprEmits find e temps part x temps' → (console : σ) → e.Fits programTexts → CodeAt code place part →
    Agree 0 env ir →
    Runs code limit fuel (resting callers place ir console) (evalExpr call env e console)
      fun v => Lands callers (place + part.length) temps ir temps' [x] [v]
  | .chainNil, _, _, _, _ => by
      rw [evalExpr, ← readOperand_missing ir]
      exact .pure (lands_refl (List.forall_mem_singleton.2 (stable_missing _)))
  | .chain hfirst hrest, console, hfits, hcode, henv => by
      rw [evalExpr, List.length_append, ← Nat.add_assoc]
      refine (runs_expr hcalls hfirst console hfits.chain.1 hcode.left henv).andThen ?_
      intro v ir' console' hagree hy hv
      cases hv
      exact runs_chain hcalls hrest console' hfits.chain.2 (hy _ List.mem_cons_self) hcode.right
        (henv.trans (hagree.mono (Nat.zero_le temps)))
  | .unary hfirst, console, hfits, hcode, henv => by
      rw [evalExpr, List.length_append, ← Nat.add_assoc]
      refine (runs_expr hcalls hfirst console hfits.unary hcode.left henv).andThen ?_
      intro v ir' console' _ hy hv
      cases hv
      exact runs_unaryCode _ console' (hy _ List.mem_cons_self) hcode.right
  | @Ir.ExprEmits.name _ id _, console, hfits, hcode, henv => by
      have hread : readOperand Value.reread ir id = env id := by
        rw [readOperand_variable hfits.name.1, henv id hfits.name.2]
      rw [evalExpr, ← hread]
      exact runs_temp console hcode.head rfl
  | .literal, console, hfits, hcode, _ => by
      rw [evalExpr, ← readOperand_literal hfits.literal ir]
      exact runs_temp console hcode.head rfl
  | .paren hinner, console, hfits, hcode, henv => by
      rw [evalExpr]
      exact runs_expr hcalls hinner console hfits.paren hcode henv
  | .call hargs hsite, console, hfits, hcode, henv => by
      rw [evalExpr, List.length_append, ← Nat.add_assoc]
      refine (runs_args hcalls hargs console hfits.call.2 hcode.left henv).andThen ?_
      intro vs ir' console' _ _ hvs
      subst hvs
      refine (hcalls console' hsite rfl hcode.right).weaken ?_
      rintro v console'' _ rfl
      rw [List.length_append, ← Nat.add_assoc]
      exact lands_temp v

/-- The operand `x` holds the value of what comes before in the chain. -/
theorem runs_chain (hcalls : CallsAs code limit fuel callers find call) {env : Env} {es : List Expr}
    {ops : List BinaryOp} {part : Code} {x y : String} {temps temps' place : Nat} {ir : Env} :
    Ir.ChainEmits find es ops x temps part y temps' → (console : σ) → Expr.TailFits programTexts es ops →
    Stable temps x → CodeAt code place part → Agree 0 env ir →
    Runs code limit fuel (resting callers place ir console)
      (evalTail call env es ops (readOperand Value.reread ir x) console)
      fun v => Lands callers (place + part.length) temps ir temps' [y] [v]
  | @Ir.ChainEmits.cons _ _ _ _ _ _ mid _ _ _ _ _ _ hfirst hrest, console, hfits, hx, hcode, henv => by
      rw [evalTail, List.length_append, ← Nat.add_assoc]
      refine (runs_expr hcalls hfirst console hfits.cons.1 hcode.left henv).andThen ?_
      intro w ir' console' hagree _ hw
      cases hw
      rw [← hagree.readOperand_eq hx, List.length_cons, Nat.add_comm _ 1, ← Nat.add_assoc]
      refine (runs_temp console' hcode.right.head rfl).andThen ?_
      intro u ir'' console'' hagree' _ hu
      cases hu
      exact runs_chain hcalls hrest console'' hfits.cons.2 (stable_temp mid) hcode.right.tail
        (henv.trans ((hagree.mono (Nat.zero_le temps)).trans (hagree'.mono (Nat.zero_le mid))))
  | .stop (.inl hes), _, _, hx, _, _ => by
      subst hes
      rw [evalTail]
      · exact .pure (lands_refl (List.forall_mem_singleton.2 hx))
      · rintro _ _ _ _ ⟨⟩
  | .stop (.inr hops), _, _, hx, _, _ => by
      subst hops
      rw [evalTail]
      · exact .pure (lands_refl (List.forall_mem_singleton.2 hx))
      · rintro _ _ _ _ _ ⟨⟩

theorem runs_args (hcalls : CallsAs code limit fuel callers find call) {env : Env} {es : List Expr} {part : Code}
    {xs : List String} {temps temps' place : Nat} {ir : Env} :
    Ir.ArgsEmits find es temps part xs temps' → (console : σ) → (∀ e ∈ es, e.Fits programTexts) →
    CodeAt code place part → Agree 0 env ir →
    Runs code limit fuel (resting callers place ir console) (evalArgs call env es console)
      fun vs => Lands callers (place + part.length) temps ir temps' xs vs
  | .nil, _, _, _, _ => by
      rw [evalArgs]
      exact .pure (lands_refl (List.forall_mem_nil _))
  | .cons hfirst hrest, console, hfits, hcode, henv => by
      obtain ⟨he, hes⟩ := List.forall_mem_cons.1 hfits
      rw [evalArgs, List.length_append, ← Nat.add_assoc]
      refine (runs_expr hcalls hfirst console he hcode.left henv).andThen ?_
      intro v ir' console' hagree hy hv
      cases hv
      refine (runs_args hcalls hrest console' hes hcode.right
        (henv.trans (hagree.mono (Nat.zero_le temps)))).bind ?_
      intro vs console'' s hlands
      exact .pure (hlands.cons (hy _ List.mem_cons_self))

end

end Expressions

end Scriptlet.Interpreter
