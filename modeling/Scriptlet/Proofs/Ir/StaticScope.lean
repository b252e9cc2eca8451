import Mathlib.Tactic
import Scriptlet.Proofs.Interpreter.Functions
import Scriptlet.Proofs.Ir.Faults
import Scriptlet.Proofs.Ir.Linearization

/-!
# Static scope

The code of a program follows the way through it. Every event has its instructions, at the place where it is met, and a
call goes to the function that its name refers to there. Nothing but a fault on the way keeps a program from having code.
-/

namespace Scriptlet.Ir

open Code (TargetsBelow liveBefore relocated)
open Interpreter (CodeAt)

/-! ## Instructions of events -/

/-- Instructions that neither call anything nor pass parameters nor end the program. -/
def Instruction.plain : Instruction → Bool
  | goto _ => true
  | branch _ _ => true
  | assign _ (.call _) => false
  | assign _ _ => true
  | ret _ => true
  | _ => false

/-- The instructions that pass the parameters of a call. Those that are not supplied are nil. -/
def Point.parameters (p : Point) (callee : String) (given : List String) : Code :=
  List.zipWith .param (given ++ List.replicate ((p.passed callee given.length).length - given.length) missing)
    (p.passed callee given.length)

theorem Point.length_parameters (p : Point) (callee : String) (given : List String) :
    (p.parameters callee given).length = (p.passed callee given.length).length := by
  simp only [parameters, List.length_zipWith, List.length_append, List.length_replicate]
  omega

theorem Point.mem_parameters {p : Point} {callee : String} {given : List String} {i : Instruction}
    (h : i ∈ p.parameters callee given) : ∃ x name, i = .param x name := by
  rw [parameters, ← List.map_uncurry_zip_eq_zipWith, List.mem_map] at h
  obtain ⟨⟨x, name⟩, -, rfl⟩ := h
  exact ⟨x, name, rfl⟩

/-- The instructions of an event. -/
def Realizes : Point × Event → Code → Prop
  | (_, .plain count), part => part.length = count ∧ ∀ i ∈ part, i.plain = true
  | (p, .call callee supplied), part =>
    ∃ given i, given.length = supplied ∧ i.callSite? = some (p.site callee supplied)
      ∧ part = p.parameters callee given ++ [i]
  | (_, .leave), part => ∃ t, part = [.goto t]
  | (_, .openLoop), part => ∃ t, part = [.goto t]
  | (_, .closeLoop), part => part = []
  | (_, .openFunction _ _), part => ∃ t, part = [.goto t]
  | (_, .closeFunction), part => part = [.ret missing]

theorem Realizes.place {p : Point} {e : Event} {part : Code} (h : Realizes (p, e) part) :
    (p.after e).place = p.place + part.length := by
  cases e with
  | plain count =>
      obtain ⟨rfl, -⟩ := h
      rfl
  | call callee supplied =>
      obtain ⟨given, i, rfl, -, rfl⟩ := h
      rw [List.length_append, Point.length_parameters]
      rfl
  | leave => obtain ⟨t, rfl⟩ := h; rfl
  | openLoop => obtain ⟨t, rfl⟩ := h; rfl
  | closeLoop => obtain rfl := h; rfl
  | openFunction name params => obtain ⟨t, rfl⟩ := h; rfl
  | closeFunction =>
      obtain rfl := h
      cases haround : p.around <;> simp [Point.after, haround]

theorem Instruction.callSite?_of_plain {i : Instruction} (h : i.plain = true) : i.callSite? = none := by
  cases i with
  | assign x rhs => cases rhs <;> first | rfl | cases h
  | _ => first | rfl | cases h

theorem Realizes.called {p : Point} {e : Event} {part : Code} (h : Realizes (p, e) part) {k : Nat} {i : Instruction}
    {site : CallSite} (hk : part[k]? = some i) (hi : i.callSite? = some site) :
    ∃ callee supplied, e = .call callee supplied ∧ site = p.site callee supplied ∧ k = site.argc := by
  have hmem := List.mem_of_getElem? hk
  cases e with
  | plain count => rw [Instruction.callSite?_of_plain (h.2 i hmem)] at hi; cases hi
  | call callee supplied =>
      obtain ⟨given, last, rfl, hlast, rfl⟩ := h
      have hlength : (p.parameters callee given).length = (p.site callee given.length).argc :=
        p.length_parameters callee given
      refine ⟨callee, given.length, rfl, ?_⟩
      rcases Nat.lt_or_ge k (p.site callee given.length).argc with hlt | hge
      · -- before the call there are only parameters
        rw [List.getElem?_append_left (hlength ▸ hlt)] at hk
        obtain ⟨x, name, rfl⟩ := Point.mem_parameters (List.mem_of_getElem? hk)
        cases hi
      · rw [List.getElem?_append_right (hlength ▸ hge), hlength, List.getElem?_singleton] at hk
        split at hk
        · cases hk
          rw [hlast] at hi
          cases hi
          exact ⟨rfl, by omega⟩
        · cases hk
  | leave => obtain ⟨t, rfl⟩ := h; obtain rfl := List.mem_singleton.1 hmem; cases hi
  | openLoop => obtain ⟨t, rfl⟩ := h; obtain rfl := List.mem_singleton.1 hmem; cases hi
  | closeLoop => obtain rfl := h; cases hmem
  | openFunction name params => obtain ⟨t, rfl⟩ := h; obtain rfl := List.mem_singleton.1 hmem; cases hi
  | closeFunction => obtain rfl := h; obtain rfl := List.mem_singleton.1 hmem; cases hi

/-! ## Code along events -/

/-- Code that is made of the instructions of events. -/
def Traces : Point → List Event → Code → Prop
  | _, [], code => code = []
  | p, e :: es, code => ∃ part rest, Realizes (p, e) part ∧ Traces (p.after e) es rest ∧ code = part ++ rest

section Traces

variable {p : Point} {es es' : List Event} {code code' : Code}

theorem Traces.append (h : Traces p es code) (h' : Traces (p.afterAll es) es' code') :
    Traces p (es ++ es') (code ++ code') := by
  induction es generalizing p code with
  | nil => obtain rfl := h; exact h'
  | cons e es ih =>
      obtain ⟨part, rest, hpart, hrest, rfl⟩ := h
      exact ⟨part, rest ++ code', hpart, ih hrest h', List.append_assoc ..⟩

theorem Traces.place (h : Traces p es code) : (p.afterAll es).place = p.place + code.length := by
  induction es generalizing p code with
  | nil => obtain rfl := h; rfl
  | cons e es ih =>
      obtain ⟨part, rest, hpart, hrest, rfl⟩ := h
      rw [Point.afterAll_cons, ih hrest, hpart.place, List.length_append, Nat.add_assoc]

theorem Traces.visited (h : Traces p es code) {v : Point × Event} (hv : v ∈ visits p es) :
    ∃ before part rest, Realizes v part ∧ code = before ++ (part ++ rest) ∧ v.1.place = p.place + before.length := by
  induction es generalizing p code with
  | nil => cases hv
  | cons e es ih =>
      obtain ⟨part, rest, hpart, hrest, rfl⟩ := h
      rcases List.mem_cons.1 hv with rfl | hv
      · exact ⟨[], part, rest, hpart, rfl, rfl⟩
      · obtain ⟨before, own, later, hown, rfl, hplace⟩ := ih hrest hv
        refine ⟨part ++ before, own, later, hown, (List.append_assoc ..).symm, ?_⟩
        rw [hplace, hpart.place, List.length_append, Nat.add_assoc]

theorem Traces.called (h : Traces p es code) {k : Nat} {i : Instruction} {site : CallSite} (hk : code[k]? = some i)
    (hi : i.callSite? = some site) :
    ∃ q callee supplied, (q, .call callee supplied) ∈ visits p es ∧ site = q.site callee supplied
      ∧ p.place + k = q.place + site.argc := by
  induction es generalizing p code k with
  | nil => obtain rfl := h; cases hk
  | cons e es ih =>
      obtain ⟨part, rest, hpart, hrest, rfl⟩ := h
      rcases Nat.lt_or_ge k part.length with hlt | hge
      · rw [List.getElem?_append_left hlt] at hk
        obtain ⟨callee, supplied, rfl, hsite, rfl⟩ := hpart.called hk hi
        exact ⟨p, callee, supplied, List.mem_cons_self, hsite, rfl⟩
      · rw [List.getElem?_append_right hge] at hk
        obtain ⟨q, callee, supplied, hmem, hsite, hplace⟩ := ih hrest hk
        refine ⟨q, callee, supplied, List.mem_cons_of_mem _ hmem, hsite, ?_⟩
        rw [hpart.place] at hplace
        omega

end Traces

/-! ## Code of expressions -/

/-- A signature tells where in the code a function begins, blanks included. -/
def Resolves (code : Code) (signature : Signature) (d : Declaration) : Prop :=
  d.params = signature.params ∧ d.entry = code.liveBefore signature.entry ∧ signature.entry < code.length

/-- A part of code is made of the instructions of events, but for blanks and for the targets, which count the blanks. -/
structure Lays (code : Code) (p : Point) (es : List Event) (part : Code) : Prop where
  traces : Traces p es (part.relocated code.liveBefore)
  below : TargetsBelow code.length part

section Lays

variable {code part rest : Code} {p : Point} {e : Event} {es es' : List Event}

theorem Lays.nil : Lays code p [] [] :=
  ⟨rfl, nofun⟩

theorem Lays.append (h : Lays code p es part) (h' : Lays code (p.afterAll es) es' rest) :
    Lays code p (es ++ es') (part ++ rest) := by
  refine ⟨?_, h.below.append h'.below⟩
  rw [Code.relocated_append]
  exact h.traces.append h'.traces

theorem Lays.blank (h : Lays code p es part) : Lays code p es (part ++ [.blank]) := by
  refine ⟨?_, h.below.append ?_⟩
  · rw [Code.relocated_append]
    exact (List.append_nil _).symm ▸ h.traces
  · simp [TargetsBelow, Instruction.target?]

theorem lays_of_realizes (h : Realizes (p, e) (part.relocated code.liveBefore)) (hbelow : TargetsBelow code.length part) :
    Lays code p [e] part :=
  ⟨⟨_, [], h, rfl, (List.append_nil _).symm⟩, hbelow⟩

theorem Instruction.live_of_plain {i : Instruction} (h : i.plain = true) : i.live = true := by
  cases i <;> first | rfl | cases h

@[simp]
theorem Instruction.plain_mapTarget (f : Nat → Nat) (i : Instruction) : (i.mapTarget f).plain = i.plain := by
  cases i with
  | assign x rhs => cases rhs <;> rfl
  | _ => rfl

theorem lays_plain (part : Code) (hplain : ∀ i ∈ part, i.plain = true) (hbelow : TargetsBelow code.length part) :
    Lays code p [.plain part.length] part := by
  refine lays_of_realizes ⟨?_, ?_⟩ hbelow
  · rw [Code.length_relocated, List.countP_eq_length]
    exact fun i hi => Instruction.live_of_plain (hplain i hi)
  · intro i hi
    obtain ⟨k, hk, -, rfl⟩ := Code.mem_relocated.1 hi
    rw [Instruction.plain_mapTarget]
    exact hplain k hk

theorem lays_assign {x : String} {rhs : Rhs} (h : (Instruction.assign x rhs).plain = true) :
    Lays code p [.plain 1] [.assign x rhs] := by
  refine lays_plain [.assign x rhs] (by simpa using h) ?_
  cases rhs with
  | call site => cases h
  | _ => simp [TargetsBelow, Instruction.target?]

theorem lays_ret {x : String} : Lays code p [.plain 1] [.ret x] :=
  lays_plain [.ret x] (by simp [Instruction.plain]) (by simp [TargetsBelow, Instruction.target?])

theorem length_unaryCode (ops : List UnaryOp) (x : String) (temps : Nat) :
    (unaryCode ops x temps).1.length = ops.length := by
  induction ops generalizing x temps with
  | nil => rfl
  | cons op ops ih => exact congrArg (· + 1) (ih (temp temps) (temps + 1))

theorem unary_of_mem_unaryCode {ops : List UnaryOp} {x : String} {temps : Nat} {i : Instruction}
    (h : i ∈ (unaryCode ops x temps).1) : ∃ y op z, i = .assign y (.unary op z) := by
  induction ops generalizing x temps with
  | nil => cases h
  | cons op ops ih =>
      rcases List.mem_cons.1 h with rfl | h
      · exact ⟨temp temps, op, x, rfl⟩
      · exact ih h

theorem lays_unaryCode (ops : List UnaryOp) (x : String) (temps : Nat) :
    Lays code p [.plain ops.length] (unaryCode ops x temps).1 := by
  rw [← length_unaryCode ops x temps]
  refine lays_plain _ ?_ ?_
  · intro i hi
    obtain ⟨y, op, z, rfl⟩ := unary_of_mem_unaryCode hi
    rfl
  · intro i hi t ht
    obtain ⟨y, op, z, rfl⟩ := unary_of_mem_unaryCode hi
    cases ht

end Lays

section Expressions

variable {code : Code} {find : String → Option Signature} {p : Point}

theorem relocated_parameters (f : Nat → Nat) (p : Point) (callee : String) (given : List String) :
    relocated f (p.parameters callee given) = p.parameters callee given := by
  have hlive : (p.parameters callee given).filter Instruction.live = p.parameters callee given := by
    rw [List.filter_eq_self]
    intro i hi
    obtain ⟨x, name, rfl⟩ := Point.mem_parameters hi
    rfl
  have hmap : ∀ i ∈ p.parameters callee given, i.mapTarget f = id i := by
    intro i hi
    obtain ⟨x, name, rfl⟩ := Point.mem_parameters hi
    rfl
  rw [relocated, hlive, List.map_congr_left hmap, List.map_id]

theorem map_param_none (xs : List String) :
    xs.map (.param · none) = List.zipWith Instruction.param xs (List.replicate xs.length none) := by
  induction xs with
  | nil => rfl
  | cons x xs ih => rw [List.map_cons, ih]; rfl

theorem Instruction.callSite?_mapTarget (f : Nat → Nat) (i : Instruction) :
    (i.mapTarget f).callSite? = i.callSite?.map fun site => { site with target := site.target.map f } := by
  cases i with
  | assign x rhs => cases rhs <;> rfl
  | _ => rfl

/-- What is generated for a call is what its name refers to. -/
theorem callCode_resolved (hfind : Finds (Resolves code) find p) {callee : String} {xs : List String} {params : Code}
    {site : CallSite} (h : callCode find callee xs = .ok (params, site)) :
    params = p.parameters callee xs ∧ { site with target := site.target.map code.liveBefore } = p.site callee xs.length
      ∧ ∀ t, site.target = some t → t < code.length := by
  have hcallee := hfind callee
  obtain ⟨hnone, rfl, rfl⟩ | ⟨signature, hsome, hle, rfl, rfl⟩ := callCode_eq h
  · rw [hnone] at hcallee
    cases hd : p.resolve? callee with
    | some d => rw [hd] at hcallee; cases hcallee
    | none =>
        refine ⟨?_, by simp [Point.site, Point.passed_of_none hd, hd], nofun⟩
        rw [Point.parameters, Point.passed_of_none hd, List.length_replicate, Nat.sub_self, List.replicate_zero,
          List.append_nil, map_param_none]
  · rw [hsome] at hcallee
    cases hd : p.resolve? callee with
    | none => rw [hd] at hcallee; cases hcallee
    | some d =>
        rw [hd] at hcallee
        obtain ⟨hparams, hentry, hlt⟩ : Resolves code signature d := by cases hcallee; assumption
        refine ⟨?_, ?_, ?_⟩
        · rw [Point.parameters, Point.passed_of_some hd, hparams, List.length_map, List.zipWith_comm,
            List.zipWith_map_right]
        · simp [Point.site, Point.passed_of_some hd, hd, hparams, hentry]
        · rintro t ⟨⟩
          exact hlt

theorem lays_call (hfind : Finds (Resolves code) find p) {callee : String} {xs : List String} {params : Code}
    {site : CallSite} (h : callCode find callee xs = .ok (params, site)) {i : Instruction}
    (hi : i.callSite? = some site) : Lays code p [.call callee xs.length] (params ++ [i]) := by
  obtain ⟨rfl, hsite, hbelow⟩ := callCode_resolved hfind h
  have hlive : i.live = true := by
    cases i <;> first | rfl | cases hi
  have htarget := target?_of_callSite? hi
  refine lays_of_realizes ⟨xs, i.mapTarget code.liveBefore, rfl, ?_, ?_⟩ ?_
  · rw [Instruction.callSite?_mapTarget, hi, Option.map_some, hsite]
  · rw [Code.relocated_append, relocated_parameters]
    simp [relocated, hlive]
  · refine TargetsBelow.append ?_ ?_
    · intro j hj t ht
      obtain ⟨x, name, rfl⟩ := Point.mem_parameters hj
      cases ht
    · intro j hj t ht
      obtain rfl := List.mem_singleton.1 hj
      exact hbelow t (htarget ▸ ht)

mutual

theorem lays_expr {e : Expr} {p : Point} {temps temps' : Nat} {part : Code} {x : String} :
    ExprEmits find e temps part x temps' → e.joined = true → Finds (Resolves code) find p →
    Lays code p (exprEvents e) part
  | .chainNil, hjoined, _ => by simp [Expr.joined] at hjoined
  | .chain (e := e) hfirst hrest, hjoined, hfind => by
      obtain ⟨hlength, he, hes⟩ := Expr.joined_chain_cons.1 hjoined
      rw [exprEvents, chainEvents]
      have hrestLays := lays_chain hrest hlength hes (hfind.sameBodies (sameBodies_exprEvents e p))
      exact (lays_expr hfirst he hfind).append hrestLays
  | .unary hfirst, hjoined, hfind => by
      rw [Expr.joined] at hjoined
      rw [exprEvents]
      exact (lays_expr hfirst hjoined hfind).append (lays_unaryCode _ _ _)
  | .name, _, _ => lays_assign rfl
  | .literal, _, _ => lays_assign rfl
  | .paren hinner, hjoined, hfind => by
      rw [Expr.joined] at hjoined
      rw [exprEvents]
      exact lays_expr hinner hjoined hfind
  | .call hfirst hcall, hjoined, hfind => by
      rw [Expr.joined] at hjoined
      rw [exprEvents, ← hfirst.length_eq]
      exact (lays_args hfirst hjoined hfind).append (lays_call (hfind.sameBodies (sameBodies_argsEvents _ p)) hcall rfl)

theorem lays_chain {es : List Expr} {ops : List BinaryOp} {p : Point} {temps temps' : Nat} {part : Code}
    {x y : String} :
    ChainEmits find es ops y temps part x temps' → es.length = ops.length → Expr.allJoined es = true →
    Finds (Resolves code) find p → Lays code p (tailEvents es) part
  | .stop hstop, hlength, _, _ => by
      obtain rfl : es = [] := hstop.elim id fun hops => List.eq_nil_of_length_eq_zero (hlength.trans (by rw [hops]; rfl))
      exact Lays.nil
  | .cons (e := e) hfirst hrest, hlength, hjoined, hfind => by
      rw [Expr.allJoined, Bool.and_eq_true] at hjoined
      have hbodies := (sameBodies_exprEvents e p).trans (Point.sameBodies_plain _ 1)
      have hrestLays := lays_chain hrest (Nat.succ.inj hlength) hjoined.2 (hfind.sameBodies hbodies)
      rw [tailEvents]
      exact (lays_expr hfirst hjoined.1 hfind).append (Lays.append (lays_assign rfl) hrestLays)

theorem lays_args {es : List Expr} {p : Point} {temps temps' : Nat} {part : Code} {xs : List String} :
    ArgsEmits find es temps part xs temps' → Expr.allJoined es = true → Finds (Resolves code) find p →
    Lays code p (argsEvents es) part
  | .nil, _, _ => Lays.nil
  | .cons (e := e) hfirst hrest, hjoined, hfind => by
      rw [Expr.allJoined, Bool.and_eq_true] at hjoined
      have hrestLays := lays_args hrest hjoined.2 (hfind.sameBodies (sameBodies_exprEvents e p))
      rw [argsEvents]
      exact (lays_expr hfirst hjoined.1 hfind).append hrestLays

end

end Expressions

/-! ## Code of statements

Jumps and signatures name places of the whole code. So a part is looked at where it stands in the whole, at a point whose
place counts what is kept of the code before it. -/

section Places

variable {code part rest : Code} {start : Nat} {i : Instruction} {p : Point} {es : List Event}

theorem lt_of_getElem? {place : Nat} (h : code[place]? = some i) : place < code.length :=
  (List.getElem?_eq_some_iff.1 h).1

theorem liveBefore_succ (h : code[start]? = some i) :
    code.liveBefore (start + 1) = code.liveBefore start + [i].countP Instruction.live := by
  rw [liveBefore, List.take_add_one, h, List.countP_append]
  rfl

theorem succ_eq_liveBefore {place : Nat} (h : code[start]? = some i) (hlive : [i].countP Instruction.live = 1)
    (hplace : place = code.liveBefore start) : place + 1 = code.liveBefore (start + 1) := by
  rw [liveBefore_succ h, hlive, hplace]

theorem liveBefore_of_codeAt (h : CodeAt code start part) :
    code.liveBefore (start + part.length) = code.liveBefore start + part.countP Instruction.live := by
  induction part generalizing start with
  | nil => rfl
  | cons i part ih =>
      rw [List.length_cons, ← Nat.add_assoc, Nat.add_right_comm, ih h.tail, liveBefore_succ h.head, Nat.add_assoc,
        ← List.countP_append]
      rfl

/-- Behind the instructions of events is the place behind the events. -/
theorem Lays.place (h : Lays code p es part) (hcode : CodeAt code start part)
    (hplace : p.place = code.liveBefore start) : (p.afterAll es).place = code.liveBefore (start + part.length) := by
  rw [h.traces.place, hplace, Code.length_relocated, liveBefore_of_codeAt hcode]

theorem Lays.padded {loopEnd : Nat} {drafts : List Draft} (h : Lays code p es (drafts.map (Draft.close loopEnd))) :
    Lays code p es ((padded drafts).map (Draft.close loopEnd)) := by
  cases drafts with
  | nil => exact h.blank
  | cons _ _ => exact h

end Places

section Statements

variable {code : Code} {p : Point}

theorem Names.Emits.lays {names names' : Names} {e : Expr} {part : Code} {x : String}
    (h : names.Emits e part x names') (hjoined : e.joined = true) (hknows : Knows (Resolves code) names p) :
    Lays code p (exprEvents e) part ∧ Knows (Resolves code) names' (p.afterAll (exprEvents e)) := by
  obtain ⟨temps, hcode, rfl⟩ := h
  exact ⟨lays_expr hcode hjoined hknows.find, hknows.sameBodies (sameBodies_exprEvents e p)⟩

theorem lays_goto {e : Event} {t : Nat} (h : ∀ t, Realizes (p, e) [.goto t]) (ht : t < code.length) :
    Lays code p [e] [.goto t] :=
  lays_of_realizes (h (code.liveBefore t)) (by simpa [TargetsBelow, Instruction.target?] using ht)

theorem lays_branch {x : String} {t : Nat} (ht : t < code.length) : Lays code p [.plain 1] [.branch x t] :=
  lays_plain [.branch x t] (by simp [Instruction.plain]) (by simpa [TargetsBelow, Instruction.target?] using ht)

theorem lays_cond {tests thens elses : List Event} {part thenPart elsePart : Code} {x : String}
    {thenStart elseStart finish : Nat} (hthenStart : thenStart < code.length) (helseStart : elseStart < code.length)
    (hfinish : finish < code.length) (htest : Lays code p tests part)
    (hthen : Lays code ((p.afterAll tests).after (.plain 2)) thens thenPart)
    (helse : Lays code ((((p.afterAll tests).after (.plain 2)).afterAll thens).after (.plain 1)) elses elsePart) :
    Lays code p (tests ++ .plain 2 :: (thens ++ .plain 1 :: elses))
      (part ++ [.branch x thenStart, .goto elseStart] ++ (thenPart ++ ([.goto finish] ++ (elsePart ++ [.blank])))) := by
  have hjumps : Lays code (p.afterAll tests) [.plain 2] [.branch x thenStart, .goto elseStart] :=
    lays_plain [.branch x thenStart, .goto elseStart] (by simp [Instruction.plain])
      (by simpa [TargetsBelow, Instruction.target?] using ⟨hthenStart, helseStart⟩)
  have hleave : Lays code (((p.afterAll tests).after (.plain 2)).afterAll thens) [.plain 1] [.goto finish] :=
    lays_goto (fun t => ⟨rfl, by simp [Instruction.plain]⟩) hfinish
  rw [List.append_assoc]
  exact htest.append (hjumps.append (hthen.append (hleave.append helse.blank)))

theorem lays_loop {es tests : List Event} {bodyPart part : Code} {x : String} {bodyStart testStart : Nat}
    (hbodyStart : bodyStart < code.length) (htestStart : testStart < code.length)
    (hbody : Lays code (p.after .openLoop) es bodyPart)
    (htest : Lays code (((p.after .openLoop).afterAll es).after .closeLoop) tests part) :
    Lays code p (.openLoop :: (es ++ .closeLoop :: (tests ++ [.plain 1])))
      (.goto testStart :: (bodyPart ++ (part ++ [.branch x bodyStart, .blank]))) := by
  have hopen : Lays code p [.openLoop] [.goto testStart] := lays_goto (fun t => ⟨t, rfl⟩) htestStart
  have hclose : Lays code ((p.after .openLoop).afterAll es) [.closeLoop] [] := lays_of_realizes rfl nofun
  exact hopen.append (hbody.append (hclose.append (htest.append (lays_branch hbodyStart).blank)))

theorem lays_function {es : List Event} {bodyPart : Code} {name : String} {params : List String} {finish : Nat}
    (hfinish : finish < code.length) (hbody : Lays code (p.after (.openFunction name params)) es bodyPart) :
    Lays code p (.openFunction name params :: (es ++ [.closeFunction]))
      ([.goto finish, .blank] ++ (bodyPart ++ [.ret missing, .blank])) := by
  have hopen : Lays code p [.openFunction name params] [.goto finish] := lays_goto (fun t => ⟨t, rfl⟩) hfinish
  have hclose : Lays code ((p.after (.openFunction name params)).afterAll es) [.closeFunction] [.ret missing] :=
    lays_of_realizes rfl (by simp [TargetsBelow, Instruction.target?])
  exact hopen.blank.append (hbody.append hclose.blank)

mutual

theorem lays_stmt {s : Stmt} {inLoop : Bool} {start loopEnd : Nat} {names names' : Names} {p : Point}
    {drafts : List Draft} :
    StmtEmits s inLoop start names drafts names' → s.joined = true → (inLoop = true → loopEnd < code.length) →
    p.place = code.liveBefore start → Knows (Resolves code) names p →
    CodeAt code start (drafts.map (Draft.close loopEnd)) →
    Lays code p (stmtEvents s) (drafts.map (Draft.close loopEnd))
      ∧ Knows (Resolves code) names' (p.afterAll (stmtEvents s))
  | .cond htest hthenStart hthen helseStart helse hfinish, hjoined, hloop, hplace, hknows, hcode => by
      simp only [Stmt.joined, Bool.and_eq_true] at hjoined
      have hat := Interpreter.condAt_of_codeAt hthenStart helseStart hfinish hcode
      have hend := lt_of_getElem? hat.blank
      obtain ⟨htestLays, hknows₁⟩ := htest.lays hjoined.1.1 hknows
      have hthenPlace := succ_eq_liveBefore hat.skip rfl
        (succ_eq_liveBefore hat.branch rfl (htestLays.place hat.test hplace))
      subst hthenStart helseStart
      obtain ⟨hthenLays, hknows₂⟩ := lays_block hthen hjoined.1.2 hloop hthenPlace
        (hknows₁.sameBodies (Point.sameBodies_plain _ 2)) hat.thenBlock.of_padded
      have hleavePlace := hthenLays.padded.place hat.thenBlock hthenPlace
      rw [List.length_map] at hleavePlace
      have helsePlace := succ_eq_liveBefore hat.leave rfl hleavePlace
      obtain ⟨helseLays, hknows₃⟩ := lays_block helse hjoined.2 hloop helsePlace
        (hknows₂.sameBodies (Point.sameBodies_plain _ 1)) hat.elseBlock.of_padded
      simp only [List.map_append, map_close_complete, stmtEvents, Point.afterAll_append, Point.afterAll_cons]
      exact ⟨lays_cond (by omega) (by omega) hend htestLays hthenLays.padded helseLays.padded, hknows₃⟩
  | .loop hbody htestStart htest hfinish, hjoined, _, hplace, hknows, hcode => by
      simp only [Stmt.joined, Bool.and_eq_true] at hjoined
      have hat := Interpreter.loopAt_of_codeAt htestStart hfinish hcode
      have hend := lt_of_getElem? hat.blank
      have hbodyPlace := succ_eq_liveBefore hat.skip rfl hplace
      obtain ⟨hbodyLays, hknows₁⟩ := lays_block hbody hjoined.2 (fun _ => hend) hbodyPlace hknows.openLoop hat.body
      obtain ⟨htestLays, hknows₂⟩ := htest.lays hjoined.1 hknows₁.closeLoop
      simp only [map_close_complete, stmtEvents, Point.afterAll_append, Point.afterAll_cons]
      exact ⟨lays_loop (by omega) (by omega) hbodyLays htestLays, hknows₂.sameBodies (Point.sameBodies_plain _ 1)⟩
  | .retNone, _, _, _, hknows, _ => by
      rw [map_close_complete]
      exact ⟨lays_ret, hknows.sameBodies (Point.sameBodies_plain _ 1)⟩
  | .ret hvalue, hjoined, _, _, hknows, _ => by
      rw [Stmt.joined] at hjoined
      obtain ⟨hlays, hknows'⟩ := hvalue.lays hjoined hknows
      rw [map_close_complete, stmtEvents, Point.afterAll_append]
      exact ⟨hlays.append lays_ret, hknows'.sameBodies (Point.sameBodies_plain _ 1)⟩
  | .leave, _, hloop, _, hknows, _ =>
      ⟨lays_goto (fun t => ⟨t, rfl⟩) (hloop rfl), ⟨hknows.current, hknows.enclosing⟩⟩
  | .assign hvalue, hjoined, _, _, hknows, _ => by
      rw [Stmt.joined] at hjoined
      obtain ⟨hlays, hknows'⟩ := hvalue.lays hjoined hknows
      rw [map_close_complete, stmtEvents, Point.afterAll_append]
      exact ⟨hlays.append (lays_assign rfl), hknows'.sameBodies (Point.sameBodies_plain _ 1)⟩
  | @StmtEmits.function name params _ _ _ _ _ _ _ hbody hfinish, hjoined, _, hplace, hknows, hcode => by
      rw [Stmt.joined] at hjoined
      simp only [List.map_append, map_close_complete] at hcode ⊢
      have hend := lt_of_getElem? hcode.right.right.tail.head
      rw [List.length_map] at hend
      -- the entry is a blank, so it has the place of the first instruction of the body
      have hentryPlace := succ_eq_liveBefore hcode.head rfl hplace
      have hbodyPlace := hentryPlace.trans (liveBefore_succ hcode.tail.head).symm
      have hentry : Resolves code ⟨params, start + 1⟩ ⟨name, params, p.place + 1⟩ :=
        ⟨rfl, hentryPlace, lt_of_getElem? hcode.tail.head⟩
      have hloop : false = true → loopEnd < code.length := nofun
      obtain ⟨hbodyLays, -⟩ := lays_block hbody hjoined hloop hbodyPlace (hknows.enter hentry) hcode.right.left
      refine ⟨?_, hknows.declare hentry⟩
      rw [stmtEvents]
      exact lays_function (hfinish ▸ hend) hbodyLays
  | @StmtEmits.call _ args _ _ _ _ _ _ _ _ hargs hcall, hjoined, _, _, hknows, _ => by
      rw [Stmt.joined] at hjoined
      have hlays := lays_args hargs hjoined hknows.find
      have hbodies := sameBodies_argsEvents args p
      rw [map_close_complete, stmtEvents, Point.afterAll_append, ← hargs.length_eq]
      exact ⟨hlays.append (lays_call (hknows.find.sameBodies hbodies) hcall rfl),
        hknows.sameBodies (hbodies.trans (Point.sameBodies_call ..))⟩

theorem lays_block {stmts : List Stmt} {inLoop : Bool} {start loopEnd : Nat} {names names' : Names} {p : Point}
    {drafts : List Draft} :
    BlockEmits stmts inLoop start names drafts names' → Stmt.allJoined stmts = true →
    (inLoop = true → loopEnd < code.length) → p.place = code.liveBefore start → Knows (Resolves code) names p →
    CodeAt code start (drafts.map (Draft.close loopEnd)) →
    Lays code p (blockEvents stmts) (drafts.map (Draft.close loopEnd))
      ∧ Knows (Resolves code) names' (p.afterAll (blockEvents stmts))
  | .nil, _, _, _, hknows, _ => ⟨Lays.nil, hknows⟩
  | .cons hfirst hmore, hjoined, hloop, hplace, hknows, hcode => by
      rw [Stmt.allJoined, Bool.and_eq_true] at hjoined
      rw [List.map_append] at hcode ⊢
      obtain ⟨hlays, hknows₁⟩ := lays_stmt hfirst hjoined.1 hloop hplace hknows hcode.left
      have hplace₁ := hlays.place hcode.left hplace
      rw [List.length_map] at hplace₁
      obtain ⟨hlays', hknows'⟩ :=
        lays_block hmore hjoined.2 hloop hplace₁ hknows₁ (hcode.right_at (by rw [List.length_map]))
      rw [blockEvents, Point.afterAll_append]
      exact ⟨hlays.append hlays', hknows'⟩

end

end Statements

/-! ## Programs -/

section Programs

variable {program : List Stmt}

/-- Code that ends the program can be made linear if all its targets are places of it. -/
theorem linearize_of_stop {code part : Code} (hcode : code = part ++ [.stop]) (h : TargetsBelow code.length part) :
    code.linearize = .ok (part.relocated code.liveBefore ++ [.stop])
      ∧ Code.validate (part.relocated code.liveBefore ++ [.stop]) = .ok () := by
  have hstop : part.relocated code.liveBefore ++ [.stop] = code.relocated code.liveBefore := by
    conv => rhs; arg 2; rw [hcode]
    rw [Code.relocated_append]
    rfl
  rw [hstop]
  refine Code.linearize_of_targets fun i hi t ht => ⟨.stop, ?_, rfl⟩
  rw [hcode] at hi
  rcases List.mem_append.1 hi with hi | hi
  · have hlt := h i hi t ht
    rw [hcode, List.length_append, List.length_singleton, Nat.lt_succ_iff] at hlt
    rw [hcode, List.drop_append_of_le_length hlt]
    exact List.mem_append_right _ (List.mem_singleton_self _)
  · obtain rfl := List.mem_singleton.1 hi
    cases ht

theorem traces_of_emits (hjoined : Stmt.allJoined program = true) {drafts : List Draft} {names : Names}
    (h : BlockEmits program false 0 .initial drafts names) :
    ∃ way, Traces .start (blockEvents program) way ∧ generate program = .ok (way ++ [.stop])
      ∧ Code.validate (way ++ [.stop]) = .ok () := by
  have harena : arena program = .ok (drafts.map (Draft.close pending) ++ [.stop]) :=
    arena_eq_ok_iff.2 ⟨drafts, names, h, rfl⟩
  generalize hcode : drafts.map (Draft.close pending) ++ [.stop] = code at harena
  have hat : CodeAt code 0 (drafts.map (Draft.close pending) ++ [.stop]) := by
    intro k i hk
    rwa [hcode, ← Nat.zero_add k] at hk
  have hloop : false = true → pending < code.length := nofun
  obtain ⟨hlays, -⟩ := lays_block h hjoined hloop rfl knows_start hat.left
  obtain ⟨hlinear, hvalid⟩ := linearize_of_stop hcode.symm hlays.below
  refine ⟨_, hlays.traces, ?_, hvalid⟩
  simp [generate, harena, bind, Except.bind, hlinear, Except.mapError]

/-- Either there is a fault on the way through a program and the first one is reported, or the code of the program is made
of the instructions on the way and ends the program. -/
theorem generate_cases (hjoined : Stmt.allJoined program = true) :
    (∃ cause, generate program = .error cause ∧ firstFault .start (blockEvents program) = some cause)
      ∨ ∃ way, generate program = .ok (way ++ [.stop]) ∧ firstFault .start (blockEvents program) = none
        ∧ Traces .start (blockEvents program) way ∧ Code.validate (way ++ [.stop]) = .ok () := by
  cases h : stmtsCode program false 0 .initial with
  | error cause =>
      refine .inl ⟨cause, ?_, fault_block (blockFails_of_stmtsCode program h) hjoined knows_start rfl⟩
      simp [generate, arena, h, bind, Except.bind]
  | ok result =>
      obtain ⟨drafts, names⟩ := result
      have hemits := blockEmits_of_stmtsCode program h
      obtain ⟨way, hway, hgenerate, hvalid⟩ := traces_of_emits hjoined hemits
      exact .inr ⟨way, hgenerate, (faultless_block hemits hjoined knows_start rfl).1, hway, hvalid⟩

/-- The instructions of an event stand at the place where it is met. -/
def Stands (code : Code) (v : Point × Event) : Prop :=
  ∃ before part rest, Realizes v part ∧ code = before ++ (part ++ rest) ∧ before.length = v.1.place

theorem stands_of_traces {way : Code} (h : Traces .start (blockEvents program) way) {v : Point × Event}
    (hv : v ∈ programVisits program) : Stands (way ++ [.stop]) v := by
  obtain ⟨before, part, rest, hpart, rfl, hplace⟩ := h.visited hv
  refine ⟨before, part, rest ++ [.stop], hpart, by simp only [List.append_assoc], ?_⟩
  rw [hplace]
  exact (Nat.zero_add _).symm

theorem called_of_traces {way : Code} (h : Traces .start (blockEvents program) way) {place : Nat} {i : Instruction}
    {site : CallSite} (hplace : (way ++ [Instruction.stop])[place]? = some i) (hi : i.callSite? = some site) :
    ∃ p callee supplied, (p, .call callee supplied) ∈ programVisits program ∧ site = p.site callee supplied
      ∧ place = p.place + site.argc := by
  rcases Nat.lt_or_ge place way.length with hlt | hge
  · rw [List.getElem?_append_left hlt] at hplace
    obtain ⟨p, callee, supplied, hmem, hsite, hat⟩ := h.called hplace hi
    exact ⟨p, callee, supplied, hmem, hsite, (Nat.zero_add place).symm.trans hat⟩
  · rw [List.getElem?_append_right hge] at hplace
    obtain rfl := List.mem_singleton.1 (List.mem_of_getElem? hplace)
    cases hi

/-- A program has no code exactly if a break on the way through it is in no loop of the same function, or a call has more
arguments than the function that its name refers to takes; the first of these is reported, and nothing else. Otherwise all
on the way has its instructions in the code, which is linear and ends the program. Whatever calls in the code is a call on
the way: it goes to the function that the name refers to and comes after all its parameters, by name and in order. -/
theorem generate_statically_scoped (program : List Stmt) (hjoined : Stmt.allJoined program = true) :
    (∀ cause, generate program = .error cause ↔ (programVisits program).findSome? fault? = some cause)
      ∧ ((∃ cause, generate program = .error cause) ↔ ∃ v ∈ programVisits program, Faulty v)
      ∧ (∀ cause, generate program ≠ .error (.linear cause))
      ∧ ∀ code, generate program = .ok code →
        code.validate = .ok () ∧ code.getLast? = some .stop ∧ (∀ v ∈ programVisits program, Stands code v)
          ∧ ∀ place i site, code[place]? = some i → i.callSite? = some site →
            ∃ p callee supplied, (p, .call callee supplied) ∈ programVisits program ∧ site = p.site callee supplied
              ∧ place = p.place + site.argc := by
  have hfirst : ∀ cause, generate program = .error cause ↔ (programVisits program).findSome? fault? = some cause := by
    intro cause
    obtain ⟨found, hgenerate, hfound⟩ | ⟨way, hgenerate, hnone, -⟩ := generate_cases hjoined
    · rw [firstFault] at hfound
      rw [hgenerate, programVisits, hfound, Except.error.injEq, Option.some.injEq]
    · rw [firstFault] at hnone
      rw [hgenerate, programVisits, hnone]
      exact ⟨nofun, nofun⟩
  refine ⟨hfirst, ?_, ?_, ?_⟩
  · simp only [hfirst, ← exists_fault?_iff, ← Option.isSome_iff_exists, List.findSome?_isSome_iff]
  · intro cause h
    obtain ⟨v, -, hv⟩ := List.exists_of_findSome?_eq_some ((hfirst _).1 h)
    exact fault?_ne_linear v cause hv
  · intro code h
    obtain ⟨cause, hgenerate, -⟩ | ⟨way, hgenerate, -, hway, hvalid⟩ := generate_cases hjoined
    · rw [hgenerate] at h
      cases h
    · rw [hgenerate] at h
      cases h
      refine ⟨hvalid, List.getLast?_concat, fun v hv => stands_of_traces hway hv, ?_⟩
      exact fun place i site hplace hi => called_of_traces hway hplace hi

/-- A function that hides another one of its name from the body around it only, and that is called without its second
argument there. The loop calls the hidden one. -/
def shadowing : List Stmt :=
  [.function "f" ["a"] [.ret (some (.call "f" [.name "a"]))],
    .function "g" [] [.function "f" ["x", "y"] [.ret (some (.name "x"))], .call "f" [.literal .number "1"]],
    .loop (.call "f" [.literal .number "2"]) [.leave]]

theorem generate_statically_scoped_shadow :
    Stmt.allJoined shadowing = true
      ∧ (∃ code, generate shadowing = .ok code ∧ code.validate = .ok () ∧ code[14]? = some (.call ⟨"f", 2, some 8⟩)
        ∧ ∃ p callee supplied, (p, .call callee supplied) ∈ programVisits shadowing
          ∧ ⟨"f", 2, some 8⟩ = p.site callee supplied ∧ 14 = p.place + 2)
      ∧ generate [.loop (.call "f" [.name "x"]) [.function "f" [] [.leave]]] = .error .breakOutsideLoop := by
  obtain ⟨-, -, -, hcode⟩ := generate_statically_scoped shadowing rfl
  have hstray := (generate_statically_scoped [.loop (.call "f" [.name "x"]) [.function "f" [] [.leave]]] rfl).1
  have hgenerate : ∃ code, generate shadowing = .ok code ∧ code[14]? = some (.call ⟨"f", 2, some 8⟩) := ⟨_, rfl, rfl⟩
  obtain ⟨code, hok, hcall⟩ := hgenerate
  obtain ⟨hvalid, -, -, hcalled⟩ := hcode code hok
  exact ⟨rfl, ⟨code, hok, hvalid, hcall, hcalled 14 _ _ hcall rfl⟩, (hstray _).2 rfl⟩

end Programs

end Scriptlet.Ir
