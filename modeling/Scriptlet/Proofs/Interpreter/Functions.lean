import Mathlib.Tactic
import Scriptlet.Proofs.Interpreter.Expressions

/-!
# Functions and their code

While code is generated, the functions declared so far are known by the places of their code; to the interpreter they
are known by their bodies. Both look names up in the same way, and where the one finds a place the other finds the body
whose code stands there.
-/

namespace Scriptlet.Interpreter

open Ir (Code Instruction CallSite Draft Signature Names Parameter State Activation missing readOperand padded complete)

/-! ## Layouts -/

/-- The code of a condition stands at a place: of its test, and of its blocks from `thenStart` and `elseStart` on. -/
structure CondAt (code : Code) (loopEnd start : Nat) (part : Code) (x : String) (thenCode elseCode : List Draft)
    (thenStart elseStart finish : Nat) : Prop where
  test : CodeAt code start part
  branch : code[start + part.length]? = some (.branch x thenStart)
  skip : code[start + part.length + 1]? = some (.goto elseStart)
  thenBlock : CodeAt code thenStart ((padded thenCode).map (Draft.close loopEnd))
  leave : code[thenStart + (padded thenCode).length]? = some (.goto finish)
  elseBlock : CodeAt code elseStart ((padded elseCode).map (Draft.close loopEnd))
  blank : code[finish]? = some .blank

/-- The code of a loop stands at a place: of its body, and of its test from `testStart` on. -/
structure LoopAt (code : Code) (start : Nat) (bodyCode : List Draft) (part : Code) (x : String)
    (testStart finish : Nat) : Prop where
  skip : code[start]? = some (.goto testStart)
  body : CodeAt code (start + 1) (bodyCode.map (Draft.close finish))
  test : CodeAt code testStart part
  branch : code[testStart + part.length]? = some (.branch x (start + 1))
  blank : code[finish]? = some .blank

section Layouts

variable {code part : Code} {loopEnd start : Nat} {x : String}

theorem CodeAt.right_at {more : Code} {mid : Nat} (h : CodeAt code start (part ++ more))
    (hmid : mid = start + part.length) : CodeAt code mid more :=
  hmid ▸ h.right

theorem CodeAt.of_padded {drafts : List Draft} (h : CodeAt code start ((padded drafts).map (Draft.close loopEnd))) :
    CodeAt code start (drafts.map (Draft.close loopEnd)) := by
  cases drafts with
  | nil => nofun
  | cons _ _ => exact h

theorem condAt_of_codeAt {thenCode elseCode : List Draft} {thenStart elseStart finish : Nat}
    (hthen : thenStart = start + part.length + 2) (helse : elseStart = thenStart + (padded thenCode).length + 1)
    (hfinish : finish = elseStart + (padded elseCode).length)
    (h : CodeAt code start ((complete (part ++ [.branch x thenStart, .goto elseStart])
      ++ (padded thenCode ++ (complete [.goto finish] ++ (padded elseCode ++ complete [.blank])))).map
        (Draft.close loopEnd))) :
    CondAt code loopEnd start part x thenCode elseCode thenStart elseStart finish := by
  simp only [List.map_append, Ir.map_close_complete] at h
  have hthenPart : CodeAt code thenStart _ := h.right_at (by simp [hthen, Nat.add_assoc])
  have hleave := hthenPart.right
  have helsePart : CodeAt code elseStart _ := hleave.right_at (by simp [helse])
  have hblank : CodeAt code finish _ := helsePart.right_at (by simp [hfinish])
  refine ⟨h.left.left, h.left.right.head, h.left.right.tail.head, hthenPart.left, ?_, helsePart.left, hblank.head⟩
  simpa using hleave.head

theorem loopAt_of_codeAt {bodyCode : List Draft} {testStart finish : Nat}
    (htest : testStart = start + 1 + bodyCode.length) (hfinish : finish = testStart + part.length + 1)
    (h : CodeAt code start ((complete (.goto testStart :: (bodyCode.map (Draft.close finish)
      ++ (part ++ [.branch x (start + 1), .blank])))).map (Draft.close loopEnd))) :
    LoopAt code start bodyCode part x testStart finish := by
  rw [Ir.map_close_complete] at h
  have htestPart : CodeAt code testStart _ := h.tail.right_at (by simp [htest])
  have hbranch := htestPart.right
  refine ⟨h.head, h.tail.left, htestPart.left, hbranch.head, ?_⟩
  rw [hfinish]
  exact hbranch.tail.head

end Layouts

/-! ## Scopes -/

/-- The body of a function has its code at a place, generated where `around` was known. -/
def FunctionAt (code : Code) (entry : Nat) (body : List Stmt) (around : List Ir.Scope) : Prop :=
  Stmt.blockWellFormed body = true ∧ Stmt.BlockFits programTexts body ∧
    ∃ temps drafts names loopEnd, Ir.BlockEmits body false (entry + 1) ⟨temps, [], around⟩ drafts names
      ∧ CodeAt code entry (.blank :: (drafts.map (Draft.close loopEnd) ++ [.ret missing]))

/-- Scopes in which the same functions were declared in the same order. -/
inductive ScopesMatch (code : Code) : List Ir.Scope → List Scope → Prop
  | nil : ScopesMatch code [] []
  | enter {around : List Ir.Scope} {scopes : List Scope} : ScopesMatch code around scopes →
      ScopesMatch code ([] :: around) ([] :: scopes)
  | declare {current : Ir.Scope} {around : List Ir.Scope} {scope : Scope} {scopes : List Scope} {name : String}
      {params : List String} {entry : Nat} {body : List Stmt} :
      ScopesMatch code (current :: around) (scope :: scopes) →
      FunctionAt code entry body (((name, ⟨params, entry⟩) :: current) :: around) →
      ScopesMatch code (((name, ⟨params, entry⟩) :: current) :: around) (((name, ⟨params, body⟩) :: scope) :: scopes)

theorem ScopesMatch.find {code : Code} {around : List Ir.Scope} {scopes : List Scope}
    (h : ScopesMatch code around scopes) (name : String) :
    (around.findSome? (·.lookup name) = none ∧ findIn? name scopes = none)
      ∨ ∃ params entry body around' scopes', around.findSome? (·.lookup name) = some ⟨params, entry⟩
        ∧ findIn? name scopes = some (⟨params, body⟩, scopes') ∧ FunctionAt code entry body around'
        ∧ ScopesMatch code around' scopes' := by
  induction h with
  | nil => exact .inl ⟨rfl, rfl⟩
  | enter _ ih => exact ih
  | @declare current around scope scopes x params entry body hmatch hbody ih =>
      by_cases hname : x = name
      · subst hname
        refine .inr ⟨params, entry, body, _, ((x, ⟨params, body⟩) :: scope) :: scopes, ?_, ?_, hbody, hmatch.declare hbody⟩
        · simp
        · simp [findIn?, Scope.find?]
      · have hir : (((x, (⟨params, entry⟩ : Signature)) :: current) :: around).findSome? (·.lookup name)
            = (current :: around).findSome? (·.lookup name) := by
          simp only [List.findSome?_cons, List.lookup_cons, beq_eq_false_iff_ne.2 (Ne.symm hname)]
        have hscope : findIn? name (((x, ⟨params, body⟩) :: scope) :: scopes) = findIn? name (scope :: scopes) := by
          simp [findIn?, Scope.find?, hname]
        rw [hir, hscope]
        exact ih

/-- The functions known to code and to the interpreter are the same. -/
def Linked (code : Code) (names : Names) (ctx : Context) : Prop :=
  ScopesMatch code (names.current :: names.enclosing) (ctx.current :: ctx.enclosing)

theorem Linked.find_none {code : Code} {names : Names} {ctx : Context} {name : String} (h : Linked code names ctx)
    (hfind : names.find? name = none) : ctx.find? name = none := by
  rcases h.find name with ⟨-, hnone⟩ | ⟨params, entry, body, around, scopes, hsome, -⟩
  · rw [Context.find?, hnone, Option.map_none]
  · cases hfind.symm.trans hsome

theorem Linked.find_some {code : Code} {names : Names} {ctx : Context} {name : String} {signature : Signature}
    (h : Linked code names ctx) (hfind : names.find? name = some signature) :
    ∃ body around scopes, ctx.find? name = some (⟨signature.params, body⟩, ⟨[], scopes⟩)
      ∧ FunctionAt code signature.entry body around ∧ ScopesMatch code around scopes := by
  rcases h.find name with ⟨hnone, -⟩ | ⟨params, entry, body, around, scopes, hsome, hsome', hbody, hmatch⟩
  · cases hfind.symm.trans hnone
  · cases hfind.symm.trans hsome
    exact ⟨body, around, scopes, by rw [Context.find?, hsome', Option.map_some], hbody, hmatch⟩

section Declarations

variable {code : Code}

theorem linked_function {name : String} {params : List String} {body : List Stmt} {start finish loopEnd : Nat}
    {names inner : Names} {ctx : Context} {bodyCode : List Draft} (hwf : Stmt.blockWellFormed body = true)
    (hfits : Stmt.BlockFits programTexts body)
    (hbody : Ir.BlockEmits body false (start + 2) (names.declare name ⟨params, start + 1⟩).enter bodyCode inner)
    (hcode : CodeAt code start ((complete [.goto finish, .blank] ++ (bodyCode ++ complete [.ret missing, .blank])).map
      (Draft.close loopEnd)))
    (hlinked : Linked code names ctx) :
    Linked code { names.declare name ⟨params, start + 1⟩ with temps := inner.temps } (ctx.declare name ⟨params, body⟩) := by
  simp only [List.map_append, Ir.map_close_complete] at hcode
  refine hlinked.declare ⟨hwf, hfits, names.temps, bodyCode, inner, loopEnd, hbody, ?_⟩
  have htail : CodeAt code (start + 1) ((.blank :: (bodyCode.map (Draft.close loopEnd) ++ [.ret missing])) ++ [.blank]) := by
    simpa using hcode.tail
  exact htail.left

mutual

theorem linked_stmt {s : Stmt} {inLoop : Bool} {start loopEnd : Nat} {names names' : Names} {ctx : Context}
    {drafts : List Draft} :
    Ir.StmtEmits s inLoop start names drafts names' → s.wellFormed = true → s.Fits programTexts →
    CodeAt code start (drafts.map (Draft.close loopEnd)) → Linked code names ctx → Linked code names' (declared ctx s)
  | .cond ⟨_, _, hnames⟩ hthenStart hthen helseStart helse hfinish, hwf, hfits, hcode, hlinked => by
      simp only [Stmt.wellFormed, Bool.and_eq_true] at hwf
      subst hnames
      have hcond := condAt_of_codeAt hthenStart helseStart hfinish hcode
      rw [declared]
      exact linked_block helse hwf.2 hfits.cond.2.2 hcond.elseBlock.of_padded
        (linked_block hthen hwf.1.2 hfits.cond.2.1 hcond.thenBlock.of_padded hlinked)
  | .loop hbody htestStart ⟨_, _, hnames⟩ hfinish, hwf, hfits, hcode, hlinked => by
      simp only [Stmt.wellFormed, Bool.and_eq_true] at hwf
      subst hnames
      rw [declared]
      have hlinked' := linked_block hbody hwf.2 hfits.loop.2 (loopAt_of_codeAt htestStart hfinish hcode).body hlinked
      exact hlinked'
  | .retNone, _, _, _, hlinked => hlinked
  | .ret ⟨_, _, hnames⟩, _, _, _, hlinked => by
      subst hnames
      exact hlinked
  | .leave, _, _, _, hlinked => hlinked
  | .assign ⟨_, _, hnames⟩, _, _, _, hlinked => by
      subst hnames
      exact hlinked
  | .function hbody _, hwf, hfits, hcode, hlinked => by
      have hbodyFits := (hfits.function hwf).2.2
      simp only [Stmt.wellFormed, Bool.and_eq_true] at hwf
      exact linked_function hwf.2 hbodyFits hbody hcode hlinked
  | .call _ _, _, _, _, hlinked => hlinked

theorem linked_block {stmts : List Stmt} {inLoop : Bool} {start loopEnd : Nat} {names names' : Names} {ctx : Context}
    {drafts : List Draft} :
    Ir.BlockEmits stmts inLoop start names drafts names' → Stmt.blockWellFormed stmts = true →
    Stmt.BlockFits programTexts stmts → CodeAt code start (drafts.map (Draft.close loopEnd)) → Linked code names ctx →
    Linked code names' (declaredAll ctx stmts)
  | .nil, _, _, _, hlinked => hlinked
  | .cons hfirst hmore, hwf, hfits, hcode, hlinked => by
      simp only [Stmt.blockWellFormed, Bool.and_eq_true] at hwf
      rw [List.map_append] at hcode
      rw [declaredAll]
      exact linked_block hmore hwf.2 hfits.cons.2 (hcode.right_at (by rw [List.length_map]))
        (linked_stmt hfirst hwf.1.1 hfits.cons.1 hcode.left hlinked)

end

end Declarations

/-! ## Calls -/

variable {σ : Type} [Streams σ]

/-- Code is about to return a value. -/
def Returns (code : Code) (callers : List (Nat × Activation)) (v : Value) (console : σ) (s : State σ) : Prop :=
  ∃ place ir x, s = resting callers place ir console ∧ code[place]? = some (.ret x)
    ∧ readOperand Value.reread ir x = v

/-- Where the code of a function stands, it does what `enter` does. -/
def EntersAs (code : Code) (limit fuel : Nat) (callers : List (Nat × Activation))
    (enter : Function → Context → List Value → Eval σ Value) : Prop :=
  ∀ {params : List String} {body : List Stmt} {entry : Nat} {around : List Ir.Scope} {scopes : List Scope}
    (args : List Value) (console : σ), FunctionAt code entry body around → ScopesMatch code around scopes →
    Runs code limit fuel (resting callers entry (bindParams params args) console)
      (enter ⟨params, body⟩ ⟨[], scopes⟩ args console) (Returns code callers)

/-- A state before a call, with its parameters pushed. -/
def calling (callers : List (Nat × Activation)) (place : Nat) (ir : Env) (args : List Parameter)
    (console : σ) : State σ :=
  ⟨place, ⟨ir, args.reverse⟩, callers, console⟩

section Calls

variable {code : Code} {limit fuel : Nat} {callers : List (Nat × Activation)} {place : Nat} {ir : Env}
  {args : List Parameter} {console : σ} {site : CallSite} {i : Instruction}

omit [Streams σ] in
theorem parameters_calling : (calling callers place ir args console).parameters args.length = args := by
  simp [calling, State.parameters, List.take_of_length_le]

omit [Streams σ] in
theorem dropParameters_calling :
    (calling callers place ir args console).dropParameters args.length = resting callers place ir console := by
  simp [calling, State.dropParameters, resting]

/-- Parameters are pushed one after the other, each with the name that it is for. -/
theorem path_params (ps : List (Option String × String))
    (h : CodeAt code place (ps.map fun p => .param p.2 p.1)) (before : List Parameter) :
    Path code limit ps.length (calling callers place ir before console)
      (calling callers (place + ps.length) ir (before ++ ps.map fun p => (p.1, readOperand Value.reread ir p.2))
        console) := by
  induction ps generalizing place before with
  | nil =>
      rw [List.map_nil, List.append_nil]
      exact .refl _
  | cons p ps ih =>
      have hpush : Path code limit 1 (calling callers place ir before console)
          (calling callers (place + 1) ir (before ++ [(p.1, readOperand Value.reread ir p.2)]) console) := by
        refine .single h.head nofun ?_
        simp [Instruction.perform, calling, State.push, State.next]
      rw [List.length_cons, Nat.add_comm ps.length 1, ← Nat.add_assoc place, List.map_cons, List.append_cons]
      exact hpush.trans (ih h.tail _)

theorem runs_callBuiltin {vs : List Value} (hi : code[place]? = some i) (hsite : i.callSite? = some site)
    (htarget : site.target = none) (hargc : site.argc = args.length) (hvs : args.map (·.2) = vs) :
    Runs code limit fuel (calling callers place ir args console) (callBuiltin site.callee vs console)
      fun v console' s => s = (resting callers place ir console').deliver i.binds? v := by
  subst hvs
  have hperform : i.perform Value.reread code limit (calling callers place ir args console)
      = some ((calling callers place ir args console).callBuiltin i.binds? site) := by
    rw [Ir.perform_of_callSite? hsite, State.call, htarget]
    exact if_pos (by simp [calling, hargc])
  have hconsole : (calling callers place ir args console).console = console := rfl
  rw [State.callBuiltin, hargc, parameters_calling, dropParameters_calling, hconsole] at hperform
  rw [callBuiltin]
  cases hbuiltin : Builtin.ofName? site.callee with
  | none =>
      rw [hbuiltin] at hperform
      exact ⟨0, _, .refl _, (step_of_getElem? hi).trans hperform⟩
  | some b =>
      rw [hbuiltin] at hperform
      dsimp only at hperform ⊢
      cases hrun : b.run (args.map (·.2)) console with
      | ok v console' =>
          rw [hrun] at hperform
          exact ⟨1, _, .single hi (Ir.ne_of_callSite? hsite rfl) hperform, rfl⟩
      | error e console' =>
          rw [hrun] at hperform
          exact ⟨0, _, .refl _, (step_of_getElem? hi).trans hperform⟩

theorem path_enter {entry : Nat} {bound : List (String × Value)} (hi : code[place]? = some i)
    (hsite : i.callSite? = some site) (htarget : site.target = some entry) (hargc : site.argc = args.length)
    (hbound : Ir.named? args = some bound) (hlimit : ¬ limit ≤ callers.length + 1) :
    Path code limit 1 (calling callers place ir args console)
      (resting ((place, ⟨ir, []⟩) :: callers) entry (Env.empty.setAll bound) console) := by
  refine .single hi (Ir.ne_of_callSite? hsite rfl) ?_
  have hpending : site.argc ≤ (calling callers place ir args console).current.pending.length := by
    simp [calling, hargc]
  have hcallers : (calling callers place ir args console).callers = callers := rfl
  rw [Ir.perform_of_callSite? hsite, State.call, htarget]
  dsimp only
  rw [hcallers, if_neg hlimit, if_pos hpending, hargc, parameters_calling, hbound]
  simp [State.enter, State.dropParameters, resting, calling]

theorem path_ret {v : Value} {s : State σ} (hi : code[place]? = some i) (hsite : i.callSite? = some site)
    (h : Returns code ((place, ⟨ir, []⟩) :: callers) v console s) :
    Path code limit 1 s ((resting callers place ir console).deliver i.binds? v) := by
  obtain ⟨last, ir', x, rfl, hret, rfl⟩ := h
  refine .single hret nofun ?_
  simp [Instruction.perform, State.ret, resting, hi, hsite]

theorem named?_zipWith (params : List String) (vs : List Value) :
    Ir.named? (List.zipWith (fun p v => (some p, v)) params vs) = some (params.zip vs) := by
  induction params generalizing vs with
  | nil => rfl
  | cons p params ih =>
      cases vs with
      | nil => rfl
      | cons v vs => simp [Ir.named?, ih]

theorem path_unnamed {xs : List String} (hcode : CodeAt code place (xs.map (.param · none))) :
    Path code limit xs.length (resting callers place ir console)
      (calling callers (place + xs.length) ir ((xs.map (readOperand Value.reread ir)).map (Prod.mk none)) console) := by
  have hps : (xs.map (Instruction.param · none)) = (xs.map (Prod.mk none)).map fun p => .param p.2 p.1 := by
    rw [List.map_map]
    rfl
  rw [hps] at hcode
  have hpath : Path code limit _ (resting callers place ir console) (calling callers _ ir _ console) :=
    path_params _ hcode []
  rw [List.length_map, List.map_map] at hpath
  rwa [List.map_map]

theorem path_named {params xs : List String} (hlength : xs.length = params.length)
    (hcode : CodeAt code place (List.zipWith (fun p x => .param x (some p)) params xs)) :
    Path code limit params.length (resting callers place ir console)
      (calling callers (place + params.length) ir
        (List.zipWith (fun p v => (some p, v)) params (xs.map (readOperand Value.reread ir))) console) := by
  have hps : List.zipWith (fun p x => Instruction.param x (some p)) params xs
      = (List.zipWith (fun p x => (some p, x)) params xs).map fun p => .param p.2 p.1 := by
    rw [List.map_zipWith]
  rw [hps] at hcode
  have hpath : Path code limit _ (resting callers place ir console) (calling callers _ ir _ console) :=
    path_params _ hcode []
  rw [List.length_zipWith, hlength, Nat.min_self, List.map_zipWith] at hpath
  rwa [List.zipWith_map_right]

/-- A call of a function of the program. One step is spent on entering it. -/
theorem runs_callFunction {entry : Nat} {bound : List (String × Value)} {x : Eval σ Value} (hi : code[place]? = some i)
    (hsite : i.callSite? = some site) (htarget : site.target = some entry) (hargc : site.argc = args.length)
    (hbound : Ir.named? args = some bound)
    (hbody : Runs code limit (fuel - 1)
      (resting ((place, ⟨ir, []⟩) :: callers) entry (Env.empty.setAll bound) console) (x console)
      (Returns code ((place, ⟨ir, []⟩) :: callers))) :
    Runs code limit fuel (calling callers place ir args console)
      ((if limit ≤ callers.length + 1 then Eval.lift (.error (.stackOverflow limit)) else x) console)
      fun v console' s => s = (resting callers place ir console').deliver i.binds? v := by
  by_cases hlimit : limit ≤ callers.length + 1
  · rw [if_pos hlimit]
    refine ⟨0, _, .refl _, (step_of_getElem? hi).trans ?_⟩
    rw [Ir.perform_of_callSite? hsite, State.call, htarget]
    exact if_pos hlimit
  · rw [if_neg hlimit]
    -- With no fuel there is nothing to show about the body, so losing one unit below zero does no harm.
    have hrun := hbody.path (path_enter hi hsite htarget hargc hbound hlimit)
    refine (hrun.mono (by omega)).followed ?_
    intro v console' s hs
    exact ⟨1, _, path_ret hi hsite hs, rfl⟩

/-- Calls of code go where calls of the interpreter go. -/
theorem callsAs_callIn {names : Names} {ctx : Context} {enter : Function → Context → List Value → Eval σ Value}
    (hlinked : Linked code names ctx) (henter : ∀ waiting, EntersAs code limit (fuel - 1) (waiting :: callers) enter) :
    CallsAs code limit fuel callers names.find? (callIn limit (callers.length + 1) enter ctx) := by
  intro callee xs params site i place ir console h hsite hcode
  have hi := hcode.right.head
  rw [callIn]
  rcases Ir.callCode_eq h with ⟨hfind, rfl, rfl⟩ | ⟨signature, hfind, hle, rfl, rfl⟩
  · rw [hlinked.find_none hfind, List.length_map]
    rw [List.length_map] at hi
    refine Runs.after (path_unnamed hcode.left) ?_
    exact runs_callBuiltin hi hsite rfl (by simp) (by simp)
  · obtain ⟨body, around, scopes, hfind', hbody, hmatch⟩ := hlinked.find_some hfind
    have hlength : (xs ++ List.replicate (signature.params.length - xs.length) missing).length
        = signature.params.length := by
      simp [hle]
    have hargs : (xs ++ List.replicate (signature.params.length - xs.length) missing).map (readOperand Value.reread ir)
        = xs.map (readOperand Value.reread ir)
          ++ List.replicate (signature.params.length - (xs.map (readOperand Value.reread ir)).length) .nil := by
      rw [List.map_append, List.map_replicate, readOperand_missing, List.length_map]
    rw [List.length_zipWith, hlength, Nat.min_self] at hi ⊢
    rw [hfind']
    refine Runs.after (path_named hlength hcode.left) ?_
    rw [hargs]
    refine runs_callFunction hi hsite rfl ?_ (named?_zipWith _ _) (henter _ _ console hbody hmatch)
    rw [List.length_zipWith, ← hargs, List.length_map, hlength, Nat.min_self]

end Calls

end Scriptlet.Interpreter
