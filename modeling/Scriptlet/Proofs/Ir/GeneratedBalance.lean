import Mathlib.Tactic
import Scriptlet.Proofs.Ir.Balance
import Scriptlet.Proofs.Ir.Generation
import Scriptlet.Proofs.Syntax.Texts

/-!
# Generated code is balanced

The code of an expression or a statement leaves no parameter pushed. Its jumps go to places within it where no parameter
is pushed, to the end of the enclosing loop, or to the code of a function.
-/

namespace Scriptlet.Ir

/-! ## Resting places

Where a statement's jumps go is only known to be a resting place of all code once all code is there. So places are
described by a predicate that covers the resting places of every part. -/

/-- Jumps and calls go to places as described, and calls name their callees properly. -/
def Sound (rest : Nat → Prop) (p : Texts) (i : Instruction) : Prop :=
  (∀ t, i.target? = some t → rest t) ∧ ∀ site, i.callSite? = some site → p.name site.callee

/-- All functions that are found have their code at places as described. -/
def Ready (rest : Nat → Prop) (find : String → Option Signature) : Prop :=
  ∀ callee signature, find callee = some signature → rest signature.entry

/-- All places of code where no parameter is pushed are as described. -/
def Covers (rest : Nat → Prop) (start : Nat) (code : Code) : Prop :=
  ∀ k ≤ code.length, scan [] (code.take k) = some [] → rest (start + k)

section Covers

variable {rest : Nat → Prop} {start : Nat} {code after : Code}

theorem Covers.here (h : Covers rest start code) : rest start :=
  h 0 (Nat.zero_le _) rfl

theorem Covers.nil (h : rest start) : Covers rest start [] := by
  intro k hk _
  obtain rfl := Nat.le_zero.1 hk
  exact h

theorem Covers.left (h : Covers rest start (code ++ after)) : Covers rest start code := by
  intro k hk hscan
  refine h k (hk.trans (by simp)) ?_
  rwa [List.take_append_of_le_length hk]

theorem Covers.right {b : Code} (h : Covers rest start (b ++ code)) (hb : scan [] b = some []) :
    Covers rest (start + b.length) code := by
  intro k hk hscan
  have hrest := h (b.length + k) (by rw [List.length_append]; omega)
    (by rw [List.take_length_add_append, scan_append hb, hscan])
  rwa [← Nat.add_assoc] at hrest

theorem Covers.next {i : Instruction} (h : Covers rest start (i :: code)) (hi : i.settle [] = some []) :
    Covers rest (start + 1) code :=
  h.right (b := [i]) ((scan_singleton [] i).trans hi)

end Covers

/-- Code that leaves no parameter pushed and whose instructions are sound. -/
def Straight (rest : Nat → Prop) (p : Texts) (code : Code) : Prop :=
  scan [] code = some [] ∧ ∀ i ∈ code, Sound rest p i

section Straight

variable {rest : Nat → Prop} {p : Texts} {code more : Code} {i : Instruction}

theorem Straight.nil : Straight rest p [] :=
  ⟨rfl, fun _ h => absurd h List.not_mem_nil⟩

theorem Straight.append (h : Straight rest p code) (hmore : Straight rest p more) : Straight rest p (code ++ more) := by
  refine ⟨by rw [scan_append h.1, hmore.1], fun i hi => ?_⟩
  rcases List.mem_append.1 hi with hi | hi
  · exact h.2 i hi
  · exact hmore.2 i hi

theorem Straight.singleton (hsite : i.callSite? = none) (hparam : ∀ x name, i ≠ .param x name)
    (htarget : ∀ t, i.target? = some t → rest t) : Straight rest p [i] := by
  refine ⟨by rw [scan_singleton, settle_other hsite hparam, if_pos rfl], ?_⟩
  rintro j hj
  rw [List.mem_singleton.1 hj]
  exact ⟨htarget, fun site h => by rw [hsite] at h; cases h⟩

theorem Straight.assign {x : String} {rhs : Rhs} (hcall : ∀ site, rhs ≠ .call site) :
    Straight rest p [.assign x rhs] := by
  cases rhs with
  | call site => exact absurd rfl (hcall site)
  | _ => exact .singleton rfl nofun nofun

theorem Straight.goto {t : Nat} (ht : rest t) : Straight rest p [.goto t] :=
  .singleton rfl nofun fun _ h => Option.some.inj h ▸ ht

theorem Straight.branch {x : String} {t : Nat} (ht : rest t) : Straight rest p [.branch x t] :=
  .singleton rfl nofun fun _ h => Option.some.inj h ▸ ht

theorem Straight.blank : Straight rest p [.blank] :=
  .singleton rfl nofun nofun

theorem Straight.ret {x : String} : Straight rest p [.ret x] :=
  .singleton rfl nofun nofun

end Straight

/-! ## Expressions -/

section Expressions

variable {rest : Nat → Prop} {p : Texts} {find : String → Option Signature}

theorem exists_param_of_mem_zipWith {ps xs : List String} {i : Instruction}
    (h : i ∈ List.zipWith (fun p x => Instruction.param x (some p)) ps xs) : ∃ q x, i = .param x (some q) := by
  rw [← List.map_uncurry_zip_eq_zipWith, List.mem_map] at h
  obtain ⟨⟨q, x⟩, -, rfl⟩ := h
  exact ⟨q, x, rfl⟩

theorem straight_call (hfind : Ready rest find) {callee : String} (hcallee : p.name callee) {args : List String}
    {params : Code} {site : CallSite} (h : callCode find callee args = .ok (params, site)) {i : Instruction}
    (hsite : i.callSite? = some site) : Straight rest p (params ++ [i]) := by
  have hparams : ∀ j ∈ params, ∃ x name, j = .param x name := by
    rcases callCode_eq h with ⟨-, rfl, -⟩ | ⟨signature, -, -, rfl, -⟩
    · intro j hj
      obtain ⟨x, -, rfl⟩ := List.mem_map.1 hj
      exact ⟨x, none, rfl⟩
    · intro j hj
      obtain ⟨q, x, rfl⟩ := exists_param_of_mem_zipWith hj
      exact ⟨x, some q, rfl⟩
  have hsettle : i.settle ((params.map Instruction.binds?).reverse ++ []) = some [] := by
    rw [settle_call hsite, List.append_nil, List.length_reverse, List.length_map]
    rcases callCode_eq h with ⟨-, rfl, rfl⟩ | ⟨signature, -, hle, rfl, rfl⟩
    · rw [if_pos ⟨(List.length_map _).symm, nofun⟩]
    · refine if_pos ⟨?_, fun _ name hname => ?_⟩
      · rw [List.length_zipWith, List.length_append, List.length_replicate, Nat.add_sub_cancel' hle, Nat.min_self]
      · rw [List.mem_reverse, List.mem_map] at hname
        obtain ⟨j, hj, rfl⟩ := hname
        obtain ⟨q, x, rfl⟩ := exists_param_of_mem_zipWith hj
        rfl
  refine ⟨by rw [scan_append (scan_params hparams []), scan_singleton, hsettle], ?_⟩
  intro j hj
  rcases List.mem_append.1 hj with hj | hj
  · obtain ⟨x, name, rfl⟩ := hparams j hj
    exact ⟨nofun, nofun⟩
  · rw [List.mem_singleton.1 hj]
    refine ⟨fun t ht => ?_, fun other hother => ?_⟩
    · rw [target?_of_callSite? hsite] at ht
      rcases callCode_eq h with ⟨-, -, rfl⟩ | ⟨signature, hsignature, -, -, rfl⟩
      · cases ht
      · exact Option.some.inj ht ▸ hfind callee signature hsignature
    · rw [hsite] at hother
      cases hother
      rcases callCode_eq h with ⟨-, -, rfl⟩ | ⟨signature, -, -, -, rfl⟩ <;> exact hcallee

theorem straight_unaryCode (ops : List UnaryOp) (x : String) (temps : Nat) :
    Straight rest p (unaryCode ops x temps).1 := by
  induction ops generalizing x temps with
  | nil => exact .nil
  | cons op ops ih =>
      have hop : Straight rest p [.assign (temp temps) (.unary op x)] := .assign nofun
      exact hop.append (ih (temp temps) (temps + 1))

mutual

theorem straight_expr (hfind : Ready rest find) {e : Expr} {temps temps' : Nat} {code : Code} {x : String} :
    ExprEmits find e temps code x temps' → e.Fits p → Straight rest p code
  | .chainNil, _ => .nil
  | .chain hfirst hrest, hfits =>
      (straight_expr hfind hfirst hfits.chain.1).append (straight_chain hfind hrest hfits.chain.2)
  | .unary hfirst, hfits => (straight_expr hfind hfirst hfits.unary).append (straight_unaryCode ..)
  | .name, _ => .assign nofun
  | .literal, _ => .assign nofun
  | .paren hinner, hfits => straight_expr hfind hinner hfits.paren
  | .call hargs hcall, hfits =>
      (straight_args hfind hargs hfits.call.2).append (straight_call hfind hfits.call.1 hcall rfl)

theorem straight_chain (hfind : Ready rest find) {es : List Expr} {ops : List BinaryOp} {temps temps' : Nat}
    {code : Code} {x y : String} :
    ChainEmits find es ops y temps code x temps' → Expr.TailFits p es ops → Straight rest p code
  | .stop _, _ => .nil
  | .cons hfirst hrest, hfits => by
      rw [← List.singleton_append]
      exact (straight_expr hfind hfirst hfits.cons.1).append
        (Straight.append (.assign (by simp)) (straight_chain hfind hrest hfits.cons.2))

theorem straight_args (hfind : Ready rest find) {args : List Expr} {temps temps' : Nat} {code : Code}
    {xs : List String} :
    ArgsEmits find args temps code xs temps' → (∀ e ∈ args, e.Fits p) → Straight rest p code
  | .nil, _ => .nil
  | .cons hfirst hrest, hfits =>
      (straight_expr hfind hfirst (hfits _ List.mem_cons_self)).append
        (straight_args hfind hrest fun e he => hfits e (List.mem_cons_of_mem _ he))

end

end Expressions

/-! ## Statements -/

namespace Names

@[simp]
theorem find?_declare (names : Names) (name : String) (signature : Signature) (callee : String) :
    (names.declare name signature).find? callee = if callee = name then some signature else names.find? callee := by
  simp only [find?, declare, List.findSome?_cons, List.lookup_cons]
  by_cases h : callee = name
  · subst h
    simp
  · simp [beq_eq_false_iff_ne.2 h, h]

@[simp]
theorem find?_enter (names : Names) : names.enter.find? = names.find? :=
  rfl

end Names

/-- What statements come to, wherever the enclosing loop ends: their code is straight if the places within it and those
of the functions declared before it are as described, and so are then those of the functions declared in it. -/
def Laid (p : Texts) (inLoop : Bool) (start : Nat) (names names' : Names) (drafts : List Draft) : Prop :=
  ∀ loopEnd rest, Covers rest start (drafts.map (Draft.close loopEnd)) → Ready rest names.find? →
    (inLoop = true → rest loopEnd) →
    Straight rest p (drafts.map (Draft.close loopEnd)) ∧ Ready rest names'.find?

section Statements

variable {p : Texts} {inLoop : Bool} {start : Nat} {names names' : Names}

theorem Laid.scan {drafts : List Draft} (h : Laid p inLoop start names names' drafts) (loopEnd : Nat) :
    Ir.scan [] (drafts.map (Draft.close loopEnd)) = some [] :=
  (h loopEnd (fun _ => True) (fun _ _ _ => trivial) (fun _ _ _ => trivial) (fun _ => trivial)).1.1

theorem Laid.padded {drafts : List Draft} (h : Laid p inLoop start names names' drafts) :
    Laid p inLoop start names names' (padded drafts) := by
  cases drafts with
  | nil =>
      intro loopEnd rest hcovers hready hloop
      exact ⟨.blank, (h loopEnd rest (.nil hcovers.here) hready hloop).2⟩
  | cons d drafts => exact h

theorem Laid.append {drafts more : List Draft} {names₁ : Names} (h : Laid p inLoop start names names₁ drafts)
    (hmore : Laid p inLoop (start + drafts.length) names₁ names' more) :
    Laid p inLoop start names names' (drafts ++ more) := by
  intro loopEnd rest hcovers hready hloop
  rw [List.map_append] at hcovers ⊢
  obtain ⟨hfirst, hready₁⟩ := h loopEnd rest hcovers.left hready hloop
  have hright := hcovers.right (h.scan loopEnd)
  rw [List.length_map] at hright
  obtain ⟨hsecond, hready'⟩ := hmore loopEnd rest hright hready₁ hloop
  exact ⟨hfirst.append hsecond, hready'⟩

/-- Code without jumps of its own. -/
theorem laid_complete {code : Code} (hcode : ∀ rest, Ready rest names.find? → Straight rest p code)
    (hnames : names'.find? = names.find?) : Laid p inLoop start names names' (complete code) := by
  intro loopEnd rest _ hready _
  rw [map_close_complete, hnames]
  exact ⟨hcode rest hready, hready⟩

theorem straight_of_emits {e : Expr} (hfits : e.Fits p) {code : Code} {x : String} (h : names.Emits e code x names') :
    (∀ rest, Ready rest names.find? → Straight rest p code) ∧ names'.find? = names.find? := by
  obtain ⟨temps, hcode, rfl⟩ := h
  exact ⟨fun rest hready => straight_expr hready hcode hfits, rfl⟩

theorem scan_of_straight {code : Code} (hcode : ∀ rest, Ready rest names.find? → Straight rest p code) :
    scan [] code = some [] :=
  (hcode (fun _ => True) fun _ _ _ => trivial).1

theorem laid_cond {code : Code} {x : String} {thenCode elseCode : List Draft} {names₁ names₂ : Names}
    (hcode : ∀ rest, Ready rest names.find? → Straight rest p code) (hnames : names₁.find? = names.find?)
    {thenStart elseStart finish : Nat} (hthenStart : thenStart = start + code.length + 2)
    (helseStart : elseStart = thenStart + thenCode.length + 1) (hfinish : finish = elseStart + elseCode.length)
    (hthen : Laid p inLoop thenStart names₁ names₂ thenCode) (helse : Laid p inLoop elseStart names₂ names' elseCode) :
    Laid p inLoop start names names' (complete (code ++ [.branch x thenStart, .goto elseStart])
      ++ (thenCode ++ (complete [.goto finish] ++ (elseCode ++ complete [.blank])))) := by
  intro loopEnd rest hcovers hready hloop
  have hhead : ∀ rest, Ready rest names.find? → rest thenStart → rest elseStart →
      Straight rest p (code ++ [.branch x thenStart, .goto elseStart]) := by
    intro rest hready ht he
    exact (hcode rest hready).append ((Straight.branch ht).append (.goto he))
  have hscan := (hhead (fun _ => True) (fun _ _ _ => trivial) trivial trivial).1
  simp only [List.map_append, map_close_complete] at hcovers ⊢
  -- The places that the jumps go to lie behind the parts, one after the other.
  have hafterHead := hcovers.right hscan
  have hafterThen := hafterHead.right (hthen.scan loopEnd)
  have hafterGoto := hafterThen.right rfl
  have hafterElse := hafterGoto.right (helse.scan loopEnd)
  have hthenPlace : start + (code ++ [Instruction.branch x thenStart, .goto elseStart]).length = thenStart := by
    rw [List.length_append, hthenStart]
    rfl
  rw [hthenPlace] at hafterHead hafterThen hafterGoto hafterElse
  rw [List.length_map] at hafterThen hafterGoto hafterElse
  have helsePlace : thenStart + thenCode.length + [Instruction.goto finish].length = elseStart := by
    rw [helseStart]
    rfl
  rw [helsePlace] at hafterGoto hafterElse
  rw [List.length_map, ← hfinish] at hafterElse
  obtain ⟨hthenCode, hready₂⟩ := hthen loopEnd rest hafterHead.left (by rw [hnames]; exact hready) hloop
  obtain ⟨helseCode, hready'⟩ := helse loopEnd rest hafterGoto.left hready₂ hloop
  refine ⟨?_, hready'⟩
  exact (hhead rest hready hafterHead.here hafterGoto.here).append
    (hthenCode.append ((Straight.goto hafterElse.here).append (helseCode.append .blank)))

theorem laid_loop {code : Code} {x : String} {bodyCode : List Draft} {names₁ : Names}
    (hcode : ∀ rest, Ready rest names₁.find? → Straight rest p code) (hnames : names'.find? = names₁.find?)
    {testStart finish : Nat} (htestStart : testStart = start + 1 + bodyCode.length)
    (hfinish : finish = testStart + code.length + 1) (hbody : Laid p true (start + 1) names names₁ bodyCode) :
    Laid p inLoop start names names' (complete (.goto testStart
      :: (bodyCode.map (Draft.close finish) ++ (code ++ [.branch x (start + 1), .blank])))) := by
  intro loopEnd rest hcovers hready _
  rw [map_close_complete] at hcovers ⊢
  have hafterGoto := hcovers.next rfl
  have hafterBody := hafterGoto.right (hbody.scan finish)
  have hafterCode := hafterBody.right (scan_of_straight hcode)
  have hafterBranch := hafterCode.next rfl
  rw [List.length_map, ← htestStart] at hafterBody hafterCode hafterBranch
  rw [← hfinish] at hafterBranch
  obtain ⟨hbodyCode, hready₁⟩ := hbody finish rest hafterGoto.left hready fun _ => hafterBranch.here
  rw [hnames]
  refine ⟨?_, hready₁⟩
  exact (Straight.goto hafterBody.here).append
    (hbodyCode.append ((hcode rest hready₁).append ((Straight.branch hafterGoto.here).append .blank)))

theorem laid_function {name : String} {params : List String} {bodyCode : List Draft} {inner : Names} {temps : Nat}
    {finish : Nat} (hfinish : finish = start + 2 + bodyCode.length + 1)
    (hbody : Laid p false (start + 2) (names.declare name ⟨params, start + 1⟩).enter inner bodyCode) :
    Laid p inLoop start names { names.declare name ⟨params, start + 1⟩ with temps }
      (complete [.goto finish, .blank] ++ (bodyCode ++ complete [.ret missing, .blank])) := by
  intro loopEnd rest hcovers hready _
  simp only [List.map_append, map_close_complete, List.cons_append, List.nil_append] at hcovers ⊢
  have hentry := hcovers.next rfl
  have hafterEntry := hentry.next rfl
  have hafterBody := hafterEntry.right (hbody.scan loopEnd)
  have hafterRet := hafterBody.next rfl
  rw [List.length_map, ← hfinish] at hafterRet
  have hdeclared : Ready rest (names.declare name ⟨params, start + 1⟩).find? := by
    intro callee signature hsignature
    rw [Names.find?_declare] at hsignature
    split at hsignature
    · cases hsignature
      exact hentry.here
    · exact hready callee signature hsignature
  obtain ⟨hbodyCode, -⟩ := hbody loopEnd rest hafterEntry.left hdeclared nofun
  refine ⟨?_, hdeclared⟩
  exact (Straight.goto hafterRet.here).append (Straight.blank.append (hbodyCode.append (Straight.ret.append .blank)))

mutual

theorem laid_stmt {s : Stmt} {inLoop : Bool} {start : Nat} {names names' : Names} {drafts : List Draft} :
    StmtEmits s inLoop start names drafts names' → s.wellFormed = true → s.Fits p →
      Laid p inLoop start names names' drafts
  | .cond hcode hthenStart hthen helseStart helse hfinish, hwf, hfits => by
      simp only [Stmt.wellFormed, Bool.and_eq_true] at hwf
      obtain ⟨hstraight, hnames⟩ := straight_of_emits hfits.cond.1 hcode
      exact laid_cond hstraight hnames hthenStart helseStart hfinish (laid_block hthen hwf.1.2 hfits.cond.2.1).padded
        (laid_block helse hwf.2 hfits.cond.2.2).padded
  | .loop hbody htestStart hcode hfinish, hwf, hfits => by
      simp only [Stmt.wellFormed, Bool.and_eq_true] at hwf
      obtain ⟨hstraight, hnames⟩ := straight_of_emits hfits.loop.1 hcode
      exact laid_loop hstraight hnames htestStart hfinish (laid_block hbody hwf.2 hfits.loop.2)
  | .retNone, _, _ => laid_complete (fun _ _ => .ret) rfl
  | .ret hcode, _, hfits => by
      obtain ⟨hstraight, hnames⟩ := straight_of_emits hfits.ret hcode
      exact laid_complete (fun rest hready => (hstraight rest hready).append .ret) hnames
  | .leave, _, _ => fun _ _ _ hready hrest => ⟨.goto (hrest rfl), hready⟩
  | .assign hcode, _, hfits => by
      obtain ⟨hstraight, hnames⟩ := straight_of_emits hfits.assign.2 hcode
      exact laid_complete (fun rest hready => (hstraight rest hready).append (.assign nofun)) hnames
  | .function hbody hfinish, hwf, hfits => by
      have hfits' := hfits.function hwf
      simp only [Stmt.wellFormed, Bool.and_eq_true] at hwf
      exact laid_function hfinish (laid_block hbody hwf.2 hfits'.2.2)
  | .call hargs hcall, _, hfits => by
      refine laid_complete (fun rest hready => ?_) rfl
      exact (straight_args hready hargs hfits.call.2).append (straight_call hready hfits.call.1 hcall rfl)

theorem laid_block {stmts : List Stmt} {inLoop : Bool} {start : Nat} {names names' : Names} {drafts : List Draft} :
    BlockEmits stmts inLoop start names drafts names' → Stmt.blockWellFormed stmts = true → Stmt.BlockFits p stmts →
      Laid p inLoop start names names' drafts
  | .nil, _, _ => by
      have hnone : Laid p inLoop start names names (complete []) := laid_complete (fun _ _ => .nil) rfl
      exact hnone
  | .cons hfirst hmore, hwf, hfits => by
      simp only [Stmt.blockWellFormed, Bool.and_eq_true] at hwf
      exact (laid_stmt hfirst hwf.1.1 hfits.cons.1).append (laid_block hmore hwf.2 hfits.cons.2)

end

/-- The code of a program is balanced, and its calls name their callees properly. -/
theorem balanced_of_arena {program : List Stmt} (hwf : Stmt.blockWellFormed program = true)
    (hfits : Stmt.BlockFits p program) {code : Code} (h : arena program = .ok code) :
    Balanced code ∧ ∀ i ∈ code, ∀ site, i.callSite? = some site → p.name site.callee := by
  obtain ⟨drafts, names, hdrafts, rfl⟩ := arena_eq_ok_iff.1 h
  have hlaid := laid_block hdrafts hwf hfits
  generalize hbody : drafts.map (Draft.close pending) = body
  have hscan : scan [] body = some [] := hbody ▸ hlaid.scan _
  generalize hcode : body ++ [Instruction.stop] = code
  have hcovers : Covers (Rests code) 0 body := by
    intro k hk hrest
    subst hcode
    rw [Nat.zero_add, Rests, List.take_append_of_le_length hk, List.length_append, List.length_singleton]
    exact ⟨by omega, hrest⟩
  have hsound := (hlaid pending _ (hbody.symm ▸ hcovers) nofun nofun).1.2
  rw [hbody] at hsound
  have hall : ∀ i ∈ code, Sound (Rests code) p i := by
    intro i hi
    rw [← hcode] at hi
    rcases List.mem_append.1 hi with hi | hi
    · exact hsound i hi
    · rw [List.mem_singleton.1 hi]
      exact ⟨nofun, nofun⟩
  refine ⟨⟨?_, fun i hi => (hall i hi).1, ?_⟩, fun i hi => (hall i hi).2⟩
  · rw [← hcode, scan_append hscan]
    rfl
  · rw [← hcode, List.getLast?_concat]

end Statements

end Scriptlet.Ir
