import Mathlib.Tactic
import Scriptlet.Proofs.Interpreter.Functions

/-!
# Statements and their code

The code of statements comes to its end, to the end of the enclosing loop or to a return, as the statements do, and
the variables of the program then hold the same values.
-/

namespace Scriptlet.Interpreter

open Ir (Code Instruction Draft Names State Activation missing readOperand padded complete)

variable {σ : Type} [Streams σ]

/-- Where code comes to when statements end. -/
def FlowLands (code : Code) (callers : List (Nat × Activation)) (finish loopEnd : Nat) (inLoop : Bool) :
    Flow → σ → State σ → Prop
  | .next env, console, s => ∃ ir, s = resting callers finish ir console ∧ Agree 0 env ir
  | .leave env, console, s => inLoop = true ∧ ∃ ir, s = resting callers loopEnd ir console ∧ Agree 0 env ir
  | .ret v, console, s => Returns code callers v console s

section Statements

variable {code : Code} {limit fuel : Nat} {callers : List (Nat × Activation)} {inLoop : Bool}
  {call : Context → String → List Value → Eval σ Value}

/-- Code may go on after the end of statements. -/
theorem Runs.flow {s : State σ} {r : Option (Except RuntimeError Flow × σ)} {finish later loopEnd : Nat}
    (h : Runs code limit fuel s r (FlowLands code callers finish loopEnd inLoop))
    (hpath : ∀ ir (console : σ),
      ∃ n, Path code limit n (resting callers finish ir console) (resting callers later ir console)) :
    Runs code limit fuel s r (FlowLands code callers later loopEnd inLoop) := by
  refine h.followed ?_
  intro flow console s' hs'
  cases flow with
  | next env =>
      obtain ⟨ir, rfl, henv⟩ := hs'
      obtain ⟨n, hpath⟩ := hpath ir console
      exact ⟨n, _, hpath, ir, rfl, henv⟩
  | leave env => exact ⟨0, s', .refl s', hs'⟩
  | ret v => exact ⟨0, s', .refl s', hs'⟩

theorem path_padded {drafts : List Draft} {start loopEnd : Nat} {ir : Env} {console : σ}
    (h : CodeAt code start ((padded drafts).map (Draft.close loopEnd))) :
    Path code limit 0 (resting callers (start + drafts.length) ir console)
      (resting callers (start + (padded drafts).length) ir console) := by
  cases drafts with
  | nil => exact path_blank h.head
  | cons _ _ => exact .refl _

theorem runs_cond {test : Eval σ Value} {thenRun elseRun : Eval σ Flow} {loopEnd start thenStart elseStart finish later : Nat}
    {part : Code} {x : String} {thenCode elseCode : List Draft} {s : State σ} {temps temps' : Nat} {env ir : Env}
    {console : σ} (hcond : CondAt code loopEnd start part x thenCode elseCode thenStart elseStart finish)
    (hfinish : finish = elseStart + (padded elseCode).length) (hlater : later = finish + 1)
    (htest : Runs code limit fuel s (test console) fun v => Lands callers (start + part.length) temps ir temps' [x] [v])
    (henv : Agree 0 env ir)
    (hthen : ∀ {ir : Env} (console : σ), Agree 0 env ir →
      Runs code limit fuel (resting callers thenStart ir console) (thenRun console)
        (FlowLands code callers (thenStart + thenCode.length) loopEnd inLoop))
    (helse : ∀ {ir : Env} (console : σ), Agree 0 env ir →
      Runs code limit fuel (resting callers elseStart ir console) (elseRun console)
        (FlowLands code callers (elseStart + elseCode.length) loopEnd inLoop)) :
    Runs code limit fuel s ((test >>= fun v => if v.truthy then thenRun else elseRun) console)
      (FlowLands code callers later loopEnd inLoop) := by
  subst hlater
  refine htest.bind ?_
  rintro v console' _ ⟨ir', rfl, hagree, hv, -, -⟩
  cases hv
  have henv' : Agree 0 env ir' := henv.trans (hagree.mono (Nat.zero_le temps))
  have hbranch : Path code limit 1 (resting callers _ ir' console') (resting callers _ ir' console') :=
    path_branch hcond.branch rfl
  by_cases htruthy : (readOperand Value.reread ir' x).truthy = true
  · rw [if_pos htruthy] at hbranch ⊢
    refine ((hthen console' henv').flow ?_).after hbranch
    intro ir'' console''
    exact ⟨_, (path_padded hcond.thenBlock).trans ((path_goto hcond.leave).trans (path_blank hcond.blank))⟩
  · rw [if_neg htruthy] at hbranch ⊢
    refine ((helse console' henv').flow ?_).after (hbranch.trans (path_goto hcond.skip))
    intro ir'' console''
    have hpadded : Path code limit 0 (resting callers _ ir'' console'') (resting callers _ ir'' console'') :=
      path_padded hcond.elseBlock
    rw [← hfinish] at hpadded
    exact ⟨_, hpadded.trans (path_blank hcond.blank)⟩

/-- The rounds of a loop, from its test on. Each round takes at least the step of its branch. -/
theorem runs_iterate {test : Env → Eval σ Value} {body : Env → Eval σ Flow} {start testStart finish later temps temps' : Nat}
    {bodyCode : List Draft} {part : Code} {x : String} (hloop : LoopAt code start bodyCode part x testStart finish)
    (hfinish : finish = testStart + part.length + 1) (hlater : later = finish + 1)
    (htest : ∀ {env ir : Env} (console : σ), Agree 0 env ir →
      Runs code limit fuel (resting callers testStart ir console) (test env console)
        fun v => Lands callers (testStart + part.length) temps ir temps' [x] [v])
    (hbody : ∀ {env ir : Env} (console : σ), Agree 0 env ir →
      Runs code limit fuel (resting callers (start + 1) ir console) (body env console)
        (FlowLands code callers testStart finish true))
    {rounds : Nat} (hrounds : rounds ≤ fuel) {env ir : Env} (console : σ) (henv : Agree 0 env ir) (loopEnd : Nat) :
    Runs code limit rounds (resting callers testStart ir console) (iterate test body rounds env console)
      (FlowLands code callers later loopEnd inLoop) := by
  subst hlater
  induction rounds generalizing env ir console with
  | zero => exact ⟨0, _, le_rfl, .refl _⟩
  | succ rounds ih =>
      rw [iterate]
      refine ((htest console henv).mono hrounds).bind ?_
      rintro v console' _ ⟨ir', rfl, hagree, hv, -, -⟩
      cases hv
      have henv' : Agree 0 env ir' := henv.trans (hagree.mono (Nat.zero_le temps))
      have hbranch : Path code limit 1 (resting callers _ ir' console') (resting callers _ ir' console') :=
        path_branch hloop.branch rfl
      by_cases htruthy : (readOperand Value.reread ir' x).truthy = true
      · rw [if_pos htruthy] at hbranch ⊢
        -- The step of the branch makes up for the round that is used.
        rw [Nat.add_comm rounds 1]
        refine Runs.path hbranch (((hbody console' henv').mono (Nat.le_of_succ_le hrounds)).bind ?_)
        intro flow console'' s hs
        cases flow with
        | next env =>
            obtain ⟨ir'', rfl, henv''⟩ := hs
            exact ih (Nat.le_of_succ_le hrounds) console'' henv''
        | leave env =>
            obtain ⟨-, ir'', rfl, henv''⟩ := hs
            exact (Runs.pure ⟨ir'', rfl, henv''⟩).after (path_blank hloop.blank)
        | ret v => exact .pure hs
      · rw [if_neg htruthy] at hbranch ⊢
        rw [← hfinish] at hbranch
        exact ((Runs.pure ⟨ir', rfl, henv'⟩).after (path_blank hloop.blank)).after hbranch

mutual

theorem runs_stmt
    (hcalls : ∀ {names : Names} {ctx : Context}, Linked code names ctx →
      CallsAs code limit fuel callers names.find? (call ctx))
    {s : Stmt} {inLoop : Bool} {start loopEnd : Nat} {names names' : Names} {ctx : Context} {drafts : List Draft}
    {env ir : Env} :
    Ir.StmtEmits s inLoop start names drafts names' → (console : σ) → s.wellFormed = true →
    s.Fits programTexts → CodeAt code start (drafts.map (Draft.close loopEnd)) → Linked code names ctx →
    Agree 0 env ir →
    Runs code limit fuel (resting callers start ir console) (exec fuel call ctx env s console)
      (FlowLands code callers (start + drafts.length) loopEnd inLoop)
  | .cond ⟨_, htest, hnames⟩ hthenStart hthen helseStart helse hfinish, console, hwf, hfits, hcode, hlinked, henv => by
      simp only [Stmt.wellFormed, Bool.and_eq_true] at hwf
      subst hnames
      have hcond := condAt_of_codeAt hthenStart helseStart hfinish hcode
      rw [exec]
      have hrun := runs_expr (hcalls hlinked) htest console hfits.cond.1 hcond.test henv
      refine runs_cond hcond hfinish ?_ hrun henv (fun console' henv' => ?_) (fun console' henv' => ?_)
      · simp only [List.length_append, Ir.length_complete, List.length_cons, List.length_nil]
        omega
      · exact runs_block hcalls hthen console' hwf.1.2 hfits.cond.2.1 hcond.thenBlock.of_padded hlinked henv'
      · have hlinked' := linked_block hthen hwf.1.2 hfits.cond.2.1 hcond.thenBlock.of_padded hlinked
        exact runs_block hcalls helse console' hwf.2 hfits.cond.2.2 hcond.elseBlock.of_padded hlinked' henv'
  | .loop hbody htestStart ⟨_, htest, hnames⟩ hfinish, console, hwf, hfits, hcode, hlinked, henv => by
      simp only [Stmt.wellFormed, Bool.and_eq_true] at hwf
      subst hnames
      have hloop := loopAt_of_codeAt htestStart hfinish hcode
      have hlinked' := linked_block hbody hwf.2 hfits.loop.2 hloop.body hlinked
      rw [exec]
      refine (runs_iterate hloop hfinish ?_
        (fun console' henv' => runs_expr (hcalls hlinked') htest console' hfits.loop.1 hloop.test henv')
        (fun console' henv' => ?_) le_rfl console henv _).after (path_goto hloop.skip)
      · simp only [Ir.length_complete, List.length_append, List.length_map, List.length_cons, List.length_nil]
        omega
      · rw [htestStart]
        exact runs_block hcalls hbody console' hwf.2 hfits.loop.2 hloop.body hlinked henv'
  | .retNone, _, _, _, hcode, _, _ => by
      rw [exec]
      exact .pure ⟨_, ir, missing, rfl, hcode.head, readOperand_missing ir⟩
  | .ret (x := x) ⟨_, hvalue, _⟩, console, _, hfits, hcode, hlinked, henv => by
      rw [Ir.map_close_complete] at hcode
      rw [exec]
      refine (runs_expr (hcalls hlinked) hvalue console hfits.ret hcode.left henv).bind ?_
      rintro v console' _ ⟨ir', rfl, -, hv, -, -⟩
      cases hv
      exact .pure ⟨_, ir', x, rfl, hcode.right.head, rfl⟩
  | .leave, _, _, _, hcode, _, henv => by
      rw [exec]
      exact (Runs.pure ⟨rfl, ir, rfl, henv⟩).after (path_goto hcode.head)
  | .assign ⟨_, hvalue, _⟩, console, _, hfits, hcode, hlinked, henv => by
      rw [Ir.map_close_complete] at hcode
      rw [exec, Ir.length_complete, List.length_append, ← Nat.add_assoc]
      refine (runs_expr (hcalls hlinked) hvalue console hfits.assign.2 hcode.left henv).bind ?_
      rintro v console' _ ⟨ir', rfl, hagree, hv, -, -⟩
      cases hv
      have hassign : Path code limit 1 (resting callers _ ir' console') (resting callers _ _ console') :=
        .single hcode.right.head nofun rfl
      exact (Runs.pure ⟨_, rfl, (henv.trans (hagree.mono (Nat.zero_le _))).set _ _⟩).after hassign
  | @Ir.StmtEmits.function _ _ _ _ _ _ bodyCode _ _ _ hfinish, _, _, _, hcode, _, henv => by
      simp only [List.map_append, Ir.map_close_complete] at hcode
      have hblank : code[start + 2 + bodyCode.length + 1]? = some .blank := by
        simpa using hcode.right.right.tail.head
      have hend : start + 2 + bodyCode.length + 1 + 1
          = start + (complete [.goto (start + 2 + bodyCode.length + 1), .blank]
            ++ (bodyCode ++ complete [.ret missing, .blank])).length := by
        simp only [List.length_append, Ir.length_complete, List.length_cons, List.length_nil]
        omega
      subst hfinish
      rw [exec, ← hend]
      exact ((Runs.pure ⟨ir, rfl, henv⟩).after (path_blank hblank)).after (path_goto hcode.head)
  | .call hargs hsite, console, _, hfits, hcode, hlinked, henv => by
      rw [Ir.map_close_complete] at hcode
      rw [exec, Ir.length_complete, List.length_append, List.length_append, ← Nat.add_assoc, ← Nat.add_assoc]
      refine (runs_args (hcalls hlinked) hargs console hfits.call.2 hcode.left henv).bind ?_
      rintro vs console' _ ⟨ir', rfl, hagree, rfl, -, -⟩
      refine (hcalls hlinked console' hsite rfl hcode.right).bind ?_
      rintro v console'' _ rfl
      exact .pure ⟨ir', rfl, henv.trans (hagree.mono (Nat.zero_le _))⟩

theorem runs_block
    (hcalls : ∀ {names : Names} {ctx : Context}, Linked code names ctx →
      CallsAs code limit fuel callers names.find? (call ctx))
    {stmts : List Stmt} {inLoop : Bool} {start loopEnd : Nat} {names names' : Names} {ctx : Context}
    {drafts : List Draft} {env ir : Env} :
    Ir.BlockEmits stmts inLoop start names drafts names' → (console : σ) → Stmt.blockWellFormed stmts = true →
    Stmt.BlockFits programTexts stmts → CodeAt code start (drafts.map (Draft.close loopEnd)) → Linked code names ctx →
    Agree 0 env ir →
    Runs code limit fuel (resting callers start ir console) (execAll fuel call ctx env stmts console)
      (FlowLands code callers (start + drafts.length) loopEnd inLoop)
  | .nil, _, _, _, _, _, henv => by
      rw [execAll]
      exact .pure ⟨ir, rfl, henv⟩
  | .cons hfirst hmore, console, hwf, hfits, hcode, hlinked, henv => by
      simp only [Stmt.blockWellFormed, Bool.and_eq_true] at hwf
      rw [List.map_append] at hcode
      rw [execAll, List.length_append, ← Nat.add_assoc]
      have hlinked' := linked_stmt hfirst hwf.1.1 hfits.cons.1 hcode.left hlinked
      refine (runs_stmt hcalls hfirst console hwf.1.1 hfits.cons.1 hcode.left hlinked henv).bind ?_
      intro flow console' s' hs'
      cases flow with
      | next env =>
          obtain ⟨ir', rfl, henv'⟩ := hs'
          exact runs_block hcalls hmore console' hwf.2 hfits.cons.2 (hcode.right_at (by rw [List.length_map]))
            hlinked' henv'
      | leave env => exact .pure hs'
      | ret v => exact .pure hs'

end

end Statements

/-! ## Programs -/

section Programs

variable {code : Code}

/-- The body of a function runs with one unit of fuel less than the call, and so may its code with one step less. -/
theorem entersAs_enter (limit fuel : Nat) (callers : List (Nat × Activation)) :
    @EntersAs σ _ code limit (fuel - 1) callers (enter limit fuel (callers.length + 1)) := by
  induction fuel generalizing callers with
  | zero => exact fun _ _ _ _ => ⟨0, _, le_rfl, .refl _⟩
  | succ fuel ih =>
      rintro params body entry around scopes args console ⟨hwf, hfits, temps, drafts, names, loopEnd, hdrafts, hcode⟩ hmatch
      have hcalls : ∀ {names : Names} {ctx : Context}, Linked code names ctx → CallsAs code limit fuel callers names.find?
          (callIn limit (callers.length + 1) (enter limit fuel (callers.length + 1 + 1)) ctx) :=
        fun hlinked => callsAs_callIn hlinked fun waiting => ih (waiting :: callers)
      have hlinked : Linked code ⟨temps, [], around⟩ ⟨[], scopes⟩ := hmatch.enter
      rw [enter, Nat.add_sub_cancel]
      refine Runs.after (path_blank hcode.head) ((runs_block hcalls hdrafts console hwf hfits hcode.tail.left hlinked
        (.refl 0 _)).bind ?_)
      intro flow console' s hs
      cases flow with
      | next env =>
          obtain ⟨ir, rfl, -⟩ := hs
          have hret := hcode.tail.right.head
          rw [List.length_map] at hret
          exact .pure ⟨_, ir, missing, rfl, hret, readOperand_missing ir⟩
      -- A body is not within a loop, even if its function is.
      | leave env => cases hs.1
      | ret v => exact .pure hs

/-- The code of a program ends as the program does. -/
theorem runs_arena {program : List Stmt} (hwf : Stmt.blockWellFormed program = true)
    (hfits : Stmt.BlockFits programTexts program) (h : Ir.arena program = .ok code) (limit fuel : Nat)
    (console : σ) :
    Runs code limit fuel (.initial console) (run fuel program limit console)
      fun result console' s => Ir.step Value.reread code limit s = some (.done console' (.ok result)) := by
  obtain ⟨drafts, names, hdrafts, rfl⟩ := Ir.arena_eq_ok_iff.1 h
  generalize hcode : drafts.map (Draft.close Ir.pending) ++ [Instruction.stop] = code
  have hall : CodeAt code 0 (drafts.map (Draft.close Ir.pending) ++ [.stop]) := by
    intro k i hi
    rwa [Nat.zero_add, ← hcode]
  have hcalls : ∀ {names : Names} {ctx : Context}, Linked code names ctx →
      @CallsAs σ _ code limit fuel [] names.find? (callIn limit 1 (enter limit fuel 2) ctx) :=
    fun hlinked => callsAs_callIn hlinked fun waiting => entersAs_enter limit fuel [waiting]
  refine Runs.bind (runs_block hcalls hdrafts console hwf hfits hall.left (.enter .nil) (.refl 0 _)) ?_
  intro flow console' s hs
  cases flow with
  | next env =>
      obtain ⟨ir, rfl, -⟩ := hs
      have hstop := hall.right.head
      rw [List.length_map] at hstop
      exact .pure ((step_of_getElem? hstop).trans rfl)
  | leave env => cases hs.1
  | ret v =>
      obtain ⟨place, ir, x, rfl, hret, rfl⟩ := hs
      exact .pure ((step_of_getElem? hret).trans rfl)

end Programs

end Scriptlet.Interpreter
