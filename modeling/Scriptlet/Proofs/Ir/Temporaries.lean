import Mathlib.Tactic
import Scriptlet.Proofs.Ir.Blocks
import Scriptlet.Proofs.Ir.Ledger
import Scriptlet.Proofs.Ir.StaticScope

/-!
# Temporaries of a program

In the linear code of a program every temporary is assigned once and read once, and straight code leads from the one to the
other. While an expression is evaluated, temporaries of the expressions around it may wait; between statements none does.
-/

namespace Scriptlet

/-- A variable or a literal that looks like a temporary. -/
def Mention.isReserved : Mention → Bool
  | .name id => Ir.isReserved id
  | .literal text => Ir.isReserved text
  | .function _ => false

namespace Ir

open Interpreter (CodeAt temp_injective)
open Code (liveBefore relocated)

/-! ## Spending operands -/

/-- Names of temporaries below a number. -/
def Older (base : Nat) (waiting : List String) : Prop :=
  ∀ x ∈ waiting, ∃ m < base, x = temp m

/-- Operands of which those that look like temporaries are temporaries from a range. -/
def Fresh (base temps : Nat) (xs : List String) : Prop :=
  ∀ x ∈ xs, isReserved x = true → ∃ m, base ≤ m ∧ m < temps ∧ x = temp m

/-- Functions do not name their parameters like temporaries. -/
def Passable (find : String → Option Signature) : Prop :=
  ∀ callee signature, find callee = some signature → ∀ p ∈ signature.params, isReserved p = false

/-- No variable and no literal looks like a temporary. -/
def Unreserved (mentions : List Mention) : Prop :=
  ∀ m ∈ mentions, m.isReserved = false

section Spending

variable {base temps : Nat} {xs ys waiting : List String}

theorem unreserved_append {mentions mentions' : List Mention} :
    Unreserved (mentions ++ mentions') ↔ Unreserved mentions ∧ Unreserved mentions' :=
  List.forall_mem_append

theorem unreserved_cons {m : Mention} {mentions : List Mention} :
    Unreserved (m :: mentions) ↔ m.isReserved = false ∧ Unreserved mentions :=
  List.forall_mem_cons

theorem fresh_missing : Fresh base temps [missing] := by
  simp [Fresh]

theorem fresh_of_unreserved {x : String} (h : isReserved x = false) : Fresh base temps [x] := by
  simp [Fresh, h]

theorem fresh_temp (hbase : base ≤ temps) : Fresh base (temps + 1) [temp temps] := by
  intro x hx _
  exact ⟨temps, hbase, Nat.lt_succ_self _, List.mem_singleton.1 hx⟩

theorem Fresh.append (h : Fresh base temps xs) (h' : Fresh base temps ys) : Fresh base temps (xs ++ ys) :=
  List.forall_mem_append.2 ⟨h, h'⟩

theorem Fresh.mono {base' temps' : Nat} (h : Fresh base temps xs) (hbase : base' ≤ base) (htemps : temps ≤ temps') :
    Fresh base' temps' xs := by
  intro x hx hreserved
  obtain ⟨m, hle, hlt, hm⟩ := h x hx hreserved
  exact ⟨m, hbase.trans hle, hlt.trans_le htemps, hm⟩

theorem Older.append_filter (h : Older base waiting) (hbase : base ≤ temps) (hxs : Fresh base temps xs) :
    Older temps (waiting ++ xs.filter isReserved) := by
  intro x hx
  rcases List.mem_append.1 hx with hx | hx
  · obtain ⟨m, hlt, hm⟩ := h x hx
    exact ⟨m, hlt.trans_le hbase, hm⟩
  · obtain ⟨hmem, hreserved⟩ := List.mem_filter.1 hx
    obtain ⟨m, -, hlt, hm⟩ := hxs x hmem hreserved
    exact ⟨m, hlt, hm⟩

/-- Operands that wait last can be read in order, whatever older temporaries wait before them. -/
theorem spend_all (hwaiting : Older base waiting) (hxs : Fresh base temps xs) :
    xs.foldlM spend (waiting ++ xs.filter isReserved) = some waiting := by
  induction xs with
  | nil => rw [List.filter_nil, List.append_nil]; rfl
  | cons x xs ih =>
      obtain ⟨hx, hrest⟩ := List.forall_mem_cons.1 hxs
      rw [List.foldlM_cons, spend]
      cases hreserved : isReserved x with
      | false =>
          rw [List.filter_cons_of_neg (by simp [hreserved]), if_neg (by simp)]
          exact ih hrest
      | true =>
          have hnot : x ∉ waiting := by
            intro hmem
            obtain ⟨m, hle, -, rfl⟩ := hx hreserved
            obtain ⟨m', hlt, hm'⟩ := hwaiting _ hmem
            rw [temp_injective hm'] at hle
            omega
          rw [List.filter_cons_of_pos hreserved, if_pos rfl, if_pos (by simp), List.erase_append_right _ hnot,
            List.erase_cons_head]
          exact ih hrest

end Spending

namespace Ledger

theorem step_temp {n : Nat} {before waiting : List String} {rhs : Rhs}
    (h : (Instruction.assign (temp n) rhs).operands.foldlM spend before = some waiting) :
    step ⟨n, before⟩ (.assign (temp n) rhs) = some ⟨n + 1, waiting ++ [temp n]⟩ := by
  simp [step, h, Instruction.passesReserved, Instruction.transfers, Instruction.assigned?, Option.filter]

theorem step_other {l : Ledger} {i : Instruction} {waiting : List String}
    (h : i.operands.foldlM spend l.waiting = some waiting) (hpasses : i.passesReserved = false)
    (htransfers : i.transfers = true → waiting = []) (hfree : ∀ x, i.assigned? = some x → isReserved x = false) :
    l.step i = some ⟨l.next, waiting⟩ := by
  have hassigned : i.assigned?.filter isReserved = none := by
    rw [Option.filter_eq_none_iff]
    intro x hx
    simp [hfree x hx]
  have hguard : (i.passesReserved || i.transfers && !waiting.isEmpty) = false := by
    cases hi : i.transfers with
    | false => simp [hpasses]
    | true => simp [hpasses, htransfers hi]
  simp only [step, h, hguard, hassigned, Bool.false_eq_true, if_false]

/-- Parameters are read one after the other. -/
theorem scan_params {code : Code} (h : ∀ i ∈ code, (∃ x name, i = .param x name) ∧ i.passesReserved = false)
    (l : Ledger) :
    l.scan code = ((code.flatMap Instruction.operands).foldlM spend l.waiting).map (⟨l.next, ·⟩) := by
  induction code generalizing l with
  | nil => rfl
  | cons i code ih =>
      obtain ⟨⟨⟨x, name, rfl⟩, hpasses⟩, hrest⟩ := List.forall_mem_cons.1 h
      rw [scan, List.foldlM_cons, List.flatMap_cons, List.foldlM_append]
      cases hspend : (Instruction.param x name).operands.foldlM spend l.waiting with
      | none => simp [step, hspend]
      | some waiting =>
          rw [step_other hspend hpasses (by simp [Instruction.transfers]) (by simp [Instruction.assigned?])]
          exact ih hrest _

end Ledger

/-! ## Expressions -/

/-- Code that reads some operands that wait and leaves others. Only temporaries from `base` on are read or left, whatever
older ones wait besides. -/
structure Turns (base : Nat) (xs : List String) (temps : Nat) (code : Code) (ys : List String) (temps' : Nat) :
    Prop where
  le : temps ≤ temps'
  fresh : Fresh base temps' ys
  scan : ∀ waiting, Older base waiting →
    Ledger.scan ⟨temps, waiting ++ xs.filter isReserved⟩ code = some ⟨temps', waiting ++ ys.filter isReserved⟩

section Turns

variable {base temps mid temps' : Nat} {xs ys zs : List String} {code more : Code} {find : String → Option Signature}

theorem turns_nil (hxs : Fresh base temps xs) : Turns base xs temps [] xs temps :=
  ⟨Nat.le_refl _, hxs, fun _ _ => rfl⟩

theorem Turns.trans (h : Turns base xs temps code ys mid) (h' : Turns base ys mid more zs temps') :
    Turns base xs temps (code ++ more) zs temps' := by
  refine ⟨h.le.trans h'.le, h'.fresh, fun waiting hwaiting => ?_⟩
  rw [Ledger.scan_append (h.scan waiting hwaiting), h'.scan waiting hwaiting]

theorem Turns.scan_nil (h : Turns base [] temps code ys temps') :
    Ledger.scan ⟨temps, []⟩ code = some ⟨temps', ys.filter isReserved⟩ :=
  h.scan [] (by simp [Older])

/-- Operands that wait already are left alone by code that starts with none. -/
theorem Turns.frame (h : Turns temps [] temps code ys temps') (hbase : base ≤ temps) (hxs : Fresh base temps xs) :
    Turns base xs temps code (xs ++ ys) temps' := by
  refine ⟨h.le, (hxs.mono (Nat.le_refl _) h.le).append (h.fresh.mono hbase (Nat.le_refl _)), fun waiting hwaiting => ?_⟩
  have hscan := h.scan _ (hwaiting.append_filter hbase hxs)
  rwa [List.filter_nil, List.append_nil, List.append_assoc, ← List.filter_append] at hscan

theorem Turns.of_unreserved {x : String} (hx : isReserved x = false) (h : Turns base [x] temps code ys temps') :
    Turns base [] temps code ys temps' := by
  refine ⟨h.le, h.fresh, fun waiting hwaiting => ?_⟩
  have hscan := h.scan waiting hwaiting
  rwa [List.filter_cons_of_neg (by simp [hx])] at hscan

theorem turns_assign {rhs : Rhs} (hrhs : (Instruction.assign (temp temps) rhs).operands = xs) (hbase : base ≤ temps)
    (hxs : Fresh base temps xs) :
    Turns base xs temps [.assign (temp temps) rhs] [temp temps] (temps + 1) := by
  refine ⟨Nat.le_succ _, fresh_temp hbase, fun waiting hwaiting => ?_⟩
  have hspend := spend_all hwaiting hxs
  rw [← hrhs] at hspend ⊢
  rw [Ledger.scan_singleton, Ledger.step_temp hspend]
  simp

theorem turns_single {x : String} (hx : isReserved x = false) :
    Turns temps [] temps [.assign (temp temps) (.single x)] [temp temps] (temps + 1) := by
  have hturns : Turns temps [x] temps [.assign (temp temps) (.single x)] [temp temps] (temps + 1) :=
    turns_assign rfl (Nat.le_refl _) (fresh_of_unreserved hx)
  exact hturns.of_unreserved hx

theorem operands_zipWith {ps : List String} (h : ps.length = xs.length) :
    (List.zipWith (fun p x => Instruction.param x (some p)) ps xs).flatMap Instruction.operands = xs := by
  induction ps generalizing xs with
  | nil => exact (List.length_eq_zero_iff.1 h.symm).symm
  | cons p ps ih =>
      obtain ⟨x, xs, rfl⟩ := List.exists_cons_of_length_eq_add_one h.symm
      rw [List.zipWith_cons_cons, List.flatMap_cons, ih (Nat.succ.inj h)]
      rfl

theorem passes_of_mem_zipWith {ps : List String} (hps : ∀ p ∈ ps, isReserved p = false) {i : Instruction}
    (h : i ∈ List.zipWith (fun p x => Instruction.param x (some p)) ps xs) :
    (∃ x name, i = .param x name) ∧ i.passesReserved = false := by
  rw [← List.map_uncurry_zip_eq_zipWith, List.mem_map] at h
  obtain ⟨⟨p, x⟩, hmem, rfl⟩ := h
  exact ⟨⟨x, some p, rfl⟩, hps p (List.of_mem_zip hmem).1⟩

theorem turns_callCode (hfind : Passable find) {callee : String} {params : Code} {site : CallSite}
    (h : callCode find callee xs = .ok (params, site)) (hxs : Fresh base temps xs) :
    Turns base xs temps params [] temps := by
  refine ⟨Nat.le_refl _, by simp [Fresh], fun waiting hwaiting => ?_⟩
  rcases callCode_eq h with ⟨-, rfl, -⟩ | ⟨signature, hsignature, hle, rfl, -⟩
  · have hparams : ∀ i ∈ xs.map (Instruction.param · none), (∃ x name, i = .param x name) ∧ i.passesReserved = false := by
      intro i hi
      obtain ⟨x, -, rfl⟩ := List.mem_map.1 hi
      exact ⟨⟨x, none, rfl⟩, rfl⟩
    have hoperands : (xs.map (Instruction.param · none)).flatMap Instruction.operands = xs := by
      simp [List.flatMap_map, Instruction.operands]
    rw [Ledger.scan_params hparams, hoperands, spend_all hwaiting hxs]
    simp
  · -- what is missing at the end is no temporary
    have hmissing : Fresh base temps (List.replicate (signature.params.length - xs.length) missing) := by
      intro x hx
      rw [List.eq_of_mem_replicate hx]
      simp
    have hfilter : xs.filter isReserved
        = (xs ++ List.replicate (signature.params.length - xs.length) missing).filter isReserved := by
      simp
    have hlength : signature.params.length
        = (xs ++ List.replicate (signature.params.length - xs.length) missing).length := by
      rw [List.length_append, List.length_replicate, Nat.add_sub_cancel' hle]
    rw [hfilter, Ledger.scan_params (fun i hi => passes_of_mem_zipWith (hfind callee signature hsignature) hi),
      operands_zipWith hlength, spend_all hwaiting (hxs.append hmissing)]
    simp

theorem turns_call (hfind : Passable find) (hbase : base ≤ temps) {callee : String} {params : Code} {site : CallSite}
    (h : callCode find callee xs = .ok (params, site)) (hxs : Fresh base temps xs) :
    Turns base xs temps (params ++ [.assign (temp temps) (.call site)]) [temp temps] (temps + 1) :=
  (turns_callCode hfind h hxs).trans (turns_assign rfl hbase (by simp [Fresh]))

theorem turns_unaryCode (ops : List UnaryOp) {x : String} (hbase : base ≤ temps) (hx : Fresh base temps [x]) :
    Turns base [x] temps (unaryCode ops x temps).1 [(unaryCode ops x temps).2.1] (unaryCode ops x temps).2.2 := by
  induction ops generalizing x temps with
  | nil => exact turns_nil hx
  | cons op ops ih =>
      have hop : Turns base [x] temps [.assign (temp temps) (.unary op x)] [temp temps] (temps + 1) :=
        turns_assign rfl hbase hx
      exact hop.trans (ih (hbase.trans (Nat.le_succ _)) hop.fresh)

mutual

theorem turns_expr (hfind : Passable find) {e : Expr} {temps temps' : Nat} {code : Code} {x : String} :
    ExprEmits find e temps code x temps' → Unreserved e.mentions → Turns temps [] temps code [x] temps'
  | .chainNil, _ => (turns_nil fresh_missing).of_unreserved rfl
  | .chain hfirst hmore, hfree => by
      rw [Expr.mentions, Expr.allMentions, unreserved_append] at hfree
      have hturns := turns_expr hfind hfirst hfree.1
      exact hturns.trans (turns_chain hfind hmore hfree.2 hturns.le hturns.fresh)
  | .unary hfirst, hfree => by
      rw [Expr.mentions] at hfree
      have hturns := turns_expr hfind hfirst hfree
      exact hturns.trans (turns_unaryCode _ hturns.le hturns.fresh)
  | .name, hfree => turns_single (unreserved_cons.1 hfree).1
  | .literal, hfree => turns_single (unreserved_cons.1 hfree).1
  | .paren hinner, hfree => by
      rw [Expr.mentions] at hfree
      exact turns_expr hfind hinner hfree
  | .call hargs hcall, hfree => by
      rw [Expr.mentions, unreserved_cons] at hfree
      have hturns := turns_args hfind hargs hfree.2
      exact hturns.trans (turns_call hfind hturns.le hcall hturns.fresh)

theorem turns_chain (hfind : Passable find) {es : List Expr} {ops : List BinaryOp} {base temps temps' : Nat}
    {code : Code} {x y : String} :
    ChainEmits find es ops y temps code x temps' → Unreserved (Expr.allMentions es) → base ≤ temps →
    Fresh base temps [y] → Turns base [y] temps code [x] temps'
  | .stop _, _, _, hy => turns_nil hy
  | @ChainEmits.cons _ _ _ op _ _ mid _ _ _ _ _ z hfirst hmore, hfree, hbase, hy => by
      rw [Expr.allMentions, unreserved_append] at hfree
      have hturns := (turns_expr hfind hfirst hfree.1).frame hbase hy
      have hmid := hbase.trans hturns.le
      have hop : Turns base [y, z] mid [.assign (temp mid) (.binary op y z)] [temp mid] (mid + 1) :=
        turns_assign rfl hmid hturns.fresh
      exact hturns.trans (hop.trans (turns_chain hfind hmore hfree.2 (hmid.trans (Nat.le_succ _)) hop.fresh))

theorem turns_args (hfind : Passable find) {args : List Expr} {temps temps' : Nat} {code : Code} {xs : List String} :
    ArgsEmits find args temps code xs temps' → Unreserved (Expr.allMentions args) → Turns temps [] temps code xs temps'
  | .nil, _ => turns_nil (by simp [Fresh])
  | .cons hfirst hmore, hfree => by
      rw [Expr.allMentions, unreserved_append] at hfree
      have hturns := turns_expr hfind hfirst hfree.1
      exact hturns.trans ((turns_args hfind hmore hfree.2).frame hturns.le hturns.fresh)

end

end Turns

/-! ## Statements -/

/-- All functions that are found are entered where no temporary waits, and do not name their parameters like temporaries. -/
def Settles (code : Code) (names : Names) : Prop :=
  Passable names.find?
    ∧ ∀ callee signature, names.find? callee = some signature → ∃ n, Clear code signature.entry n

/-- An instruction goes to where no temporary waits, or out of the loop around it. -/
def Aims (code : Code) (exit : Option Nat) (i : Instruction) : Prop :=
  ∀ t, i.target? = some t → exit = some t ∨ ∃ n, Clear code t n

/-- Something holds of all instructions from `start` up to `stop`. -/
def Within (code : Code) (start stop : Nat) (P : Instruction → Prop) : Prop :=
  ∀ place i, start ≤ place → place < stop → code[place]? = some i → P i

section Statements

variable {code part more : Code} {exit : Option Nat} {start mid stop n n' : Nat} {names names' : Names}
  {P Q : Instruction → Prop}

theorem Within.append (h : Within code start mid P) (h' : Within code mid stop P) : Within code start stop P := by
  intro place i hstart hstop hi
  rcases Nat.lt_or_ge place mid with hlt | hge
  · exact h place i hstart hlt hi
  · exact h' place i hge hstop hi

theorem Within.mono (h : Within code start stop P) (hsub : ∀ i, P i → Q i) : Within code start stop Q :=
  fun place i hstart hstop hi => hsub i (h place i hstart hstop hi)

theorem within_of_codeAt (hcode : CodeAt code start part) (hpart : ∀ i ∈ part, P i) :
    Within code start (start + part.length) P :=
  fun _ i hstart hstop hi => hpart i (mem_of_codeAt hcode hstart hstop hi)

theorem within_single {i : Instruction} (hi : code[start]? = some i) (h : P i) : Within code start (start + 1) P :=
  within_of_codeAt (codeAt_singleton hi) (by simpa using h)

theorem take_of_codeAt (h : CodeAt code start part) : code.take (start + part.length) = code.take start ++ part := by
  induction part generalizing start with
  | nil => simp
  | cons i part ih =>
      rw [List.length_cons, ← Nat.add_assoc, Nat.add_right_comm, ih h.tail, List.take_add_one, h.head]
      simp

theorem Clear.next (h : Clear code start n) (hcode : CodeAt code start part)
    (hpart : Ledger.scan ⟨n, []⟩ part = some ⟨n', []⟩) : Clear code (start + part.length) n' := by
  rw [Clear, take_of_codeAt hcode, Ledger.scan_append h, hpart]

theorem Clear.single {i : Instruction} (h : Clear code start n) (hi : code[start]? = some i)
    (hstep : Ledger.step ⟨n, []⟩ i = some ⟨n, []⟩) : Clear code (start + 1) n :=
  h.next (codeAt_singleton hi) ((Ledger.scan_singleton _ _).trans hstep)

/-- The code of an expression, and an instruction that reads its value. -/
theorem scan_expr (hnames : Settles code names) {e : Expr} {x : String} (hfree : Unreserved e.mentions)
    (h : names.Emits e part x names') {i : Instruction} (hoperands : i.operands = [x])
    (hpasses : i.passesReserved = false) (hassigned : ∀ y, i.assigned? = some y → isReserved y = false) :
    Ledger.scan ⟨names.temps, []⟩ (part ++ [i]) = some ⟨names'.temps, []⟩ := by
  obtain ⟨temps, hcode, rfl⟩ := h
  have hturns := turns_expr hnames.1 hcode hfree
  have hnone : Older names.temps [] := by simp [Older]
  have hspend := spend_all hnone hturns.fresh
  rw [← hoperands] at hspend hturns
  rw [Ledger.scan_append hturns.scan_nil, Ledger.scan_singleton,
    Ledger.step_other hspend hpasses (fun _ => rfl) hassigned]

theorem aims_of_evaluates (hnames : Settles code names) {mentions : List Mention} {i : Instruction}
    (h : Evaluates names.find? mentions i) : Aims code exit i := by
  intro t ht
  cases h with
  | @compute x rhs hrhs =>
      cases rhs with
      | call site => exact absurd rfl (hrhs site)
      | _ => cases ht
  | pass => cases ht
  | call hsite hfollows _ =>
      rw [target?_of_callSite? hsite] at ht
      rcases hfollows with ⟨-, hnone⟩ | ⟨signature, hfind, -, htarget⟩
      · rw [hnone] at ht
        cases ht
      · rw [htarget, Option.some.injEq] at ht
        exact .inr (ht ▸ hnames.2 _ signature hfind)

theorem aims_of_clear {i : Instruction} {t : Nat} (hi : i.target? = some t) (ht : Clear code t n) : Aims code exit i := by
  intro t' ht'
  rw [hi, Option.some.injEq] at ht'
  exact .inr ⟨n, ht' ▸ ht⟩

theorem aims_of_none {i : Instruction} (hi : i.target? = none) : Aims code exit i := by
  simp [Aims, hi]

theorem Settles.expr (hnames : Settles code names) {e : Expr} {x : String}
    (h : names.Emits e part x names') : Settles code names' := by
  obtain ⟨temps, -, rfl⟩ := h
  exact hnames

/-- What a block comes to: nothing waits behind it, and its jumps and calls go to where nothing waits. -/
structure Kept (code : Code) (exit : Option Nat) (start stop : Nat) (names' : Names) : Prop where
  settles : Settles code names'
  clear : Clear code stop names'.temps
  aims : Within code start stop (Aims code exit)

theorem kept_expr (hnames : Settles code names) (hstart : Clear code start names.temps) {e : Expr} {x : String}
    (hfree : Unreserved e.mentions) (h : names.Emits e part x names') {i : Instruction}
    (hcode : CodeAt code start (part ++ [i])) (hoperands : i.operands = [x]) (hpasses : i.passesReserved = false)
    (hassigned : ∀ y, i.assigned? = some y → isReserved y = false)
    (htarget : Clear code (start + part.length + 1) names'.temps → Aims code exit i) :
    Kept code exit start (start + part.length + 1) names' := by
  have hclear := hstart.next hcode (scan_expr hnames hfree h hoperands hpasses hassigned)
  rw [List.length_append, List.length_singleton, ← Nat.add_assoc] at hclear
  have hevaluates := h.evaluates.2
  have haims : Within code start _ (Aims code exit) := within_of_codeAt hcode
    (List.forall_mem_append.2 ⟨fun j hj => aims_of_evaluates hnames (hevaluates j hj), by simpa using htarget hclear⟩)
  rw [List.length_append, List.length_singleton, ← Nat.add_assoc] at haims
  exact ⟨hnames.expr h, hclear, haims⟩

theorem kept_cond (hnames : Settles code names) (hstart : Clear code start names.temps) {e : Expr} {x : String}
    {names₁ names₂ : Names} {thenStop finish : Nat} (hfree : Unreserved e.mentions)
    (h : names.Emits e part x names₁)
    (hcode : CodeAt code start (part ++ [.branch x (start + part.length + 2), .goto (thenStop + 1)]))
    (hthen : Settles code names₁ → Clear code (start + part.length + 2) names₁.temps →
      Kept code exit (start + part.length + 2) thenStop names₂)
    (hleave : code[thenStop]? = some (.goto finish))
    (helse : Settles code names₂ → Clear code (thenStop + 1) names₂.temps → Kept code exit (thenStop + 1) finish names')
    (hblank : code[finish]? = some .blank) : Kept code exit start (finish + 1) names' := by
  rw [← List.singleton_append, ← List.append_assoc] at hcode
  have hskip : code[start + part.length + 1]? = some (.goto (thenStop + 1)) := by
    have hright := hcode.right.head
    rwa [List.length_append, List.length_singleton, ← Nat.add_assoc] at hright
  have htest : Kept code exit start (start + part.length + 1) names₁ :=
    kept_expr hnames hstart hfree h hcode.left rfl rfl (by simp [Instruction.assigned?])
      fun hclear => aims_of_clear rfl (hclear.single hskip rfl)
  have hthenKept := hthen htest.settles (htest.clear.single hskip rfl)
  have hleaveClear := hthenKept.clear.single hleave rfl
  have helseKept := helse hthenKept.settles hleaveClear
  refine ⟨helseKept.settles, helseKept.clear.single hblank rfl, ?_⟩
  have hskipAims : Within code _ _ (Aims code exit) := within_single hskip (aims_of_clear rfl hleaveClear)
  have hleaveAims : Within code _ _ (Aims code exit) := within_single hleave (aims_of_clear rfl helseKept.clear)
  exact (((htest.aims.append hskipAims).append hthenKept.aims).append hleaveAims).append
    (helseKept.aims.append (within_single hblank (aims_of_none rfl)))

theorem kept_loop (hstart : Clear code start names.temps) {e : Expr} {x : String}
    {names₁ : Names} {testStart : Nat} (hfree : Unreserved e.mentions) (hskip : code[start]? = some (.goto testStart))
    (hbody : Clear code (start + 1) names.temps →
      Kept code (some (testStart + part.length + 1)) (start + 1) testStart names₁)
    (h : names₁.Emits e part x names')
    (hcode : CodeAt code testStart (part ++ [.branch x (start + 1), .blank])) :
    Kept code exit start (testStart + part.length + 2) names' := by
  rw [← List.singleton_append, ← List.append_assoc] at hcode
  have hblank : code[testStart + part.length + 1]? = some .blank := by
    have hright := hcode.right.head
    rwa [List.length_append, List.length_singleton, ← Nat.add_assoc] at hright
  have hbodyStart := hstart.single hskip rfl
  have hbodyKept := hbody hbodyStart
  have htest : Kept code exit testStart (testStart + part.length + 1) names' :=
    kept_expr hbodyKept.settles hbodyKept.clear hfree h hcode.left rfl rfl (by simp [Instruction.assigned?])
      fun _ => aims_of_clear rfl hbodyStart
  have hbodyAims : Within code (start + 1) testStart (Aims code exit) := by
    refine hbodyKept.aims.mono fun i hi t ht => .inr ?_
    rcases hi t ht with hexit | hclear
    · exact ⟨names'.temps, Option.some.inj hexit ▸ htest.clear⟩
    · exact hclear
  refine ⟨htest.settles, htest.clear.single hblank rfl, ?_⟩
  have hskipAims : Within code _ _ (Aims code exit) := within_single hskip (aims_of_clear rfl hbodyKept.clear)
  exact (hskipAims.append hbodyAims).append (htest.aims.append (within_single hblank (aims_of_none rfl)))

theorem kept_function (hnames : Settles code names) (hstart : Clear code start names.temps) {name : String}
    {params : List String} {inner : Names} {last : Nat} (hparams : ∀ p ∈ params, isReserved p = false)
    (hskip : code[start]? = some (.goto (last + 1))) (hentry : code[start + 1]? = some .blank)
    (hbody : Settles code (names.declare name ⟨params, start + 1⟩).enter → Clear code (start + 2) names.temps →
      Kept code none (start + 2) last inner)
    (hret : code[last]? = some (.ret missing)) (hblank : code[last + 1]? = some .blank) :
    Kept code exit start (last + 2) { names.declare name ⟨params, start + 1⟩ with temps := inner.temps } := by
  have hentryClear := hstart.single hskip rfl
  have hsettles : Settles code (names.declare name ⟨params, start + 1⟩) := by
    constructor
    · intro callee signature hfind
      rw [Names.find?_declare] at hfind
      split at hfind
      · cases hfind
        exact hparams
      · exact hnames.1 callee signature hfind
    · intro callee signature hfind
      rw [Names.find?_declare] at hfind
      split at hfind
      · cases hfind
        exact ⟨_, hentryClear⟩
      · exact hnames.2 callee signature hfind
  have hbodyKept := hbody hsettles (hentryClear.single hentry rfl)
  have hretClear := hbodyKept.clear.single hret rfl
  have hbodyAims : Within code (start + 2) last (Aims code exit) :=
    hbodyKept.aims.mono fun i hi t ht => .inr ((hi t ht).resolve_left (by simp))
  refine ⟨hsettles, hretClear.single hblank rfl, ?_⟩
  have hskipAims : Within code _ _ (Aims code exit) := within_single hskip (aims_of_clear rfl hretClear)
  have hentryAims : Within code _ _ (Aims code exit) := within_single hentry (aims_of_none rfl)
  have hretAims : Within code _ _ (Aims code exit) := within_single hret (aims_of_none rfl)
  exact ((hskipAims.append hentryAims).append hbodyAims).append
    (hretAims.append (within_single hblank (aims_of_none rfl)))

theorem kept_call (hnames : Settles code names) (hstart : Clear code start names.temps) {callee : String}
    {args : List Expr} {xs : List String} {temps : Nat} {params : Code} {site : CallSite}
    (hfree : Unreserved (Expr.allMentions args)) (hargs : ArgsEmits names.find? args names.temps part xs temps)
    (hcall : callCode names.find? callee xs = .ok (params, site))
    (hcode : CodeAt code start (part ++ (params ++ [.call site]))) :
    Kept code exit start (start + part.length + params.length + 1) { names with temps } := by
  have hturns := turns_args hnames.1 hargs hfree
  have hparams := (hturns.trans (turns_callCode hnames.1 hcall hturns.fresh)).scan_nil
  have hscan : Ledger.scan ⟨names.temps, []⟩ (part ++ params ++ [.call site]) = some ⟨temps, []⟩ :=
    Ledger.scan_append hparams _
  rw [← List.append_assoc] at hcode
  have hclear := hstart.next hcode hscan
  have haims : Within code start _ (Aims code exit) := within_of_codeAt hcode (by
    rw [List.append_assoc, List.forall_mem_append]
    exact ⟨fun i hi => aims_of_evaluates hnames (evaluates_args hargs i hi),
      fun i hi => aims_of_evaluates hnames (evaluates_call hcall (List.mem_singleton_self _) rfl i hi)⟩)
  rw [List.length_append, List.length_append, List.length_singleton, ← Nat.add_assoc, ← Nat.add_assoc] at hclear haims
  exact ⟨hnames, hclear, haims⟩

theorem kept_of_blockAt {stmts : List Stmt} (h : BlockAt code exit stmts start stop names names')
    (hfree : Unreserved (Stmt.blockMentions stmts)) (hnames : Settles code names)
    (hstart : Clear code start names.temps) : Kept code exit start stop names' := by
  induction h with
  | nil => exact ⟨hnames, hstart, fun place i hge hlt => absurd hlt (Nat.not_lt.2 hge)⟩
  | blank _ hblank ih =>
      obtain ⟨hsettles, hclear, haims⟩ := ih hfree hnames hstart
      exact ⟨hsettles, hclear.single hblank rfl, haims.append (within_single hblank (aims_of_none rfl))⟩
  | cons _ _ ih ih' =>
      rw [Stmt.blockMentions, unreserved_append] at hfree
      obtain ⟨hsettles, hclear, haims⟩ := ih (by simpa [Stmt.blockMentions] using hfree.1) hnames hstart
      obtain ⟨hsettles', hclear', haims'⟩ := ih' hfree.2 hsettles hclear
      exact ⟨hsettles', hclear', haims.append haims'⟩
  | cond htest hcode _ hleave _ hblank ih ih' =>
      simp only [Stmt.blockMentions, Stmt.mentions, List.append_nil, unreserved_append] at hfree
      exact kept_cond hnames hstart hfree.1 htest hcode (ih hfree.2.1) hleave (ih' hfree.2.2) hblank
  | loop hskip _ htest hcode ih =>
      simp only [Stmt.blockMentions, Stmt.mentions, List.append_nil, unreserved_append] at hfree
      exact kept_loop hstart hfree.1 hskip (ih hfree.2 hnames) htest hcode
  | retNone hret =>
      exact ⟨hnames, hstart.single hret rfl, within_single hret (aims_of_none rfl)⟩
  | ret hvalue hcode =>
      simp only [Stmt.blockMentions, Stmt.mentions, List.append_nil] at hfree
      exact kept_expr hnames hstart hfree hvalue hcode rfl rfl (by simp [Instruction.assigned?])
        fun _ => aims_of_none rfl
  | leave hgoto =>
      refine ⟨hnames, hstart.single hgoto rfl, within_single hgoto ?_⟩
      rintro t ⟨⟩
      exact .inl rfl
  | assign hvalue hcode =>
      simp only [Stmt.blockMentions, Stmt.mentions, List.append_nil, unreserved_cons] at hfree
      exact kept_expr hnames hstart hfree.2 hvalue hcode rfl rfl (by rintro y ⟨⟩; exact hfree.1)
        fun _ => aims_of_none rfl
  | function hskip hentry _ _ _ hret hblank ih =>
      simp only [Stmt.blockMentions, Stmt.mentions, List.append_nil, unreserved_cons, unreserved_append] at hfree
      refine kept_function hnames hstart (fun p hp => ?_) hskip hentry (ih hfree.2.2) hret hblank
      exact hfree.2.1 (.name p) (List.mem_map_of_mem hp)
  | call hargs hcall hcode =>
      simp only [Stmt.blockMentions, Stmt.mentions, List.append_nil, unreserved_cons] at hfree
      exact kept_call hnames hstart hfree.2 hargs hcall hcode

/-! ### Callees -/

/-- A call is made under a name that is mentioned as that of a function. -/
def Calls (mentions : List Mention) (i : Instruction) : Prop :=
  ∀ site, i.callSite? = some site → .function site.callee ∈ mentions

theorem calls_of_none {mentions : List Mention} {i : Instruction} (h : i.callSite? = none) : Calls mentions i := by
  simp [Calls, h]

theorem calls_of_evaluates {find : String → Option Signature} {mentions : List Mention} {i : Instruction}
    (h : Evaluates find mentions i) : Calls mentions i := by
  intro site hsite
  cases h with
  | @compute x rhs hrhs =>
      cases rhs with
      | call site => exact absurd rfl (hrhs site)
      | _ => cases hsite
  | pass => cases hsite
  | call hother _ hmem =>
      rw [hsite, Option.some.injEq] at hother
      exact hother ▸ hmem

theorem calls_expr {e : Expr} {x : String} {mentions : List Mention} (h : names.Emits e part x names')
    (hcode : CodeAt code start (part ++ more)) (hmore : ∀ i ∈ more, i.callSite? = none) (hsub : e.mentions ⊆ mentions) :
    Within code start (start + part.length + more.length) (Calls mentions) := by
  rw [Nat.add_assoc, ← List.length_append]
  refine within_of_codeAt hcode (List.forall_mem_append.2 ⟨fun i hi => ?_, fun i hi => calls_of_none (hmore i hi)⟩)
  exact calls_of_evaluates ((h.evaluates.2 i hi).mono hsub)

theorem calls_of_blockAt {stmts : List Stmt} (h : BlockAt code exit stmts start stop names names') :
    Within code start stop (Calls (Stmt.blockMentions stmts)) := by
  have hmono : ∀ {start stop : Nat} {mentions mentions' : List Mention}, mentions ⊆ mentions' →
      Within code start stop (Calls mentions) → Within code start stop (Calls mentions') :=
    fun hsub h => h.mono fun i hi site hsite => hsub (hi site hsite)
  induction h with
  | nil => exact fun place i hge hlt => absurd hlt (Nat.not_lt.2 hge)
  | blank _ hblank ih => exact ih.append (within_single hblank (calls_of_none rfl))
  | cons _ _ ih ih' =>
      exact (hmono (by simp [Stmt.blockMentions]) ih).append (hmono (by simp [Stmt.blockMentions]) ih')
  | cond htest hcode _ hleave _ hblank ih ih' =>
      refine (calls_expr htest hcode ?_ ?_).append ((hmono ?_ ih).append
        ((within_single hleave (calls_of_none rfl)).append
          ((hmono ?_ ih').append (within_single hblank (calls_of_none rfl)))))
      · simp [Instruction.callSite?]
      all_goals simp [Stmt.blockMentions, Stmt.mentions]
  | loop hskip _ htest hcode ih =>
      refine (within_single hskip (calls_of_none rfl)).append ((hmono ?_ ih).append (calls_expr htest hcode ?_ ?_))
      · simp [Stmt.blockMentions, Stmt.mentions]
      · simp [Instruction.callSite?]
      · simp [Stmt.blockMentions, Stmt.mentions]
  | retNone hret => exact within_single hret (calls_of_none rfl)
  | ret hvalue hcode =>
      exact calls_expr hvalue hcode (by simp [Instruction.callSite?]) (by simp [Stmt.blockMentions, Stmt.mentions])
  | leave hgoto => exact within_single hgoto (calls_of_none rfl)
  | assign hvalue hcode =>
      exact calls_expr hvalue hcode (by simp [Instruction.callSite?]) (by simp [Stmt.blockMentions, Stmt.mentions])
  | function hskip hentry _ _ _ hret hblank ih =>
      refine (within_single hskip (calls_of_none rfl)).append ((within_single hentry (calls_of_none rfl)).append
        ((hmono ?_ ih).append ((within_single hret (calls_of_none rfl)).append
          (within_single hblank (calls_of_none rfl)))))
      intro m hm
      simp [Stmt.blockMentions, Stmt.mentions, hm]
  | @call _ callee args _ _ part params _ site _ hargs hcall hcode =>
      have hcalls : ∀ i ∈ part ++ (params ++ [.call site]), Calls (.function callee :: Expr.allMentions args) i := by
        refine List.forall_mem_append.2 ⟨fun i hi => ?_, fun i hi => ?_⟩
        · exact calls_of_evaluates ((evaluates_args hargs i hi).mono (List.subset_cons_self _ _))
        · exact calls_of_evaluates (evaluates_call hcall List.mem_cons_self rfl i hi)
      have hwithin := within_of_codeAt hcode hcalls
      rw [List.length_append, List.length_append, List.length_singleton, ← Nat.add_assoc, ← Nat.add_assoc] at hwithin
      simpa [Stmt.blockMentions, Stmt.mentions] using hwithin

end Statements

/-! ## Programs -/

namespace Ledger

@[simp]
theorem step_mapTarget (l : Ledger) (f : Nat → Nat) (i : Instruction) : l.step (i.mapTarget f) = l.step i := by
  cases i with
  | assign x rhs => cases rhs <;> rfl
  | _ => rfl

theorem step_of_not_live (l : Ledger) {i : Instruction} (h : i.live = false) : l.step i = some l := by
  cases i <;> first | rfl | cases h

theorem scan_relocated (l : Ledger) (f : Nat → Nat) (code : Code) : l.scan (relocated f code) = l.scan code := by
  induction code generalizing l with
  | nil => rfl
  | cons i code ih =>
      cases hlive : i.live with
      | false =>
          rw [relocated, List.filter_cons_of_neg (by simp [hlive]), ← relocated, ih]
          rw [scan, scan, List.foldlM_cons, step_of_not_live l hlive]
          rfl
      | true =>
          rw [relocated, List.filter_cons_of_pos hlive, List.map_cons, ← relocated, scan, scan, List.foldlM_cons,
            List.foldlM_cons, step_mapTarget]
          cases l.step i with
          | none => rfl
          | some l' => exact ih l'

end Ledger

section Programs

variable {program : List Stmt} {code linear : Code} {drafts : List Draft} {names : Names}

theorem Clear.moved {place n : Nat} (h : Clear code place n) (f : Nat → Nat) :
    Clear (code.relocated f) (code.liveBefore place) n := by
  have htake : (code.relocated f).take (code.liveBefore place) = relocated f (code.take place) := by
    rw [Code.relocated, ← List.map_take, Bytecode.take_filter_live]
    rfl
  rw [Clear, htake, Ledger.scan_relocated]
  exact h

/-- The accounts of a program's linear code are even, and its calls are made under names of functions. -/
theorem booked_of_generate (hfree : Unreserved (Stmt.blockMentions program))
    (hnames : stmtsCode program false 0 .initial = .ok (drafts, names)) (h : generate program = .ok linear) :
    (∃ account, Booked linear names.temps account) ∧ ∀ i ∈ linear, Calls (Stmt.blockMentions program) i := by
  obtain ⟨code, harena, hlinear⟩ := exists_arena_of_generate h
  obtain ⟨size, drafts', names', hnames', hblock, hlength, hstop⟩ := blockAt_of_arena harena
  obtain ⟨rfl, rfl⟩ := Prod.mk.inj (Except.ok.inj (hnames.symm.trans hnames'.stmtsCode_eq))
  have hinitial : Settles code .initial := by
    constructor <;> simp [Passable, Names.find?, Names.initial]
  obtain ⟨-, hclear, haims⟩ := kept_of_blockAt hblock hfree hinitial rfl
  -- the instruction that ends the program neither jumps nor calls
  have hall : ∀ i ∈ code, Aims code none i ∧ Calls (Stmt.blockMentions program) i := by
    intro i hi
    obtain ⟨place, hplace⟩ := List.getElem?_of_mem hi
    rcases lt_or_eq_stop hlength hstop hplace with hlt | ⟨-, rfl⟩
    · exact ⟨haims place i (Nat.zero_le _) hlt hplace, calls_of_blockAt hblock place i (Nat.zero_le _) hlt hplace⟩
    · exact ⟨aims_of_none rfl, calls_of_none rfl⟩
  obtain rfl : linear = code.relocated code.liveBefore := (Code.linearize_eq hlinear).1
  refine ⟨booked_of_clear ?_ fun kept hkept t ht => ?_, fun kept hkept site hsite => ?_⟩
  · have hend := (hclear.single hstop rfl).moved code.liveBefore
    have hcount : (code.relocated code.liveBefore).length = code.liveBefore code.length := by
      rw [Code.length_relocated, liveBefore, List.take_length]
      rfl
    rwa [hcount, hlength]
  · obtain ⟨i, hi, -, rfl⟩ := Code.mem_relocated.1 hkept
    rw [Instruction.target?_mapTarget, Option.map_eq_some_iff] at ht
    obtain ⟨t, ht, rfl⟩ := ht
    obtain ⟨n, hn⟩ := ((hall i hi).1 t ht).resolve_left (by simp)
    exact ⟨n, hn.moved code.liveBefore⟩
  · obtain ⟨i, hi, -, rfl⟩ := Code.mem_relocated.1 hkept
    rw [Instruction.callSite?_mapTarget, Option.map_eq_some_iff] at hsite
    obtain ⟨site, hsite, rfl⟩ := hsite
    exact (hall i hi).2 site hsite

end Programs

/-- In the linear code of a program that does not name variables or write literals like temporaries, each temporary is
assigned by exactly one instruction, in the order of their numbers, and read by exactly one operand of a later one; no jump
or call goes to what follows the assignment up to the reading, and nothing in between leaves the straight way. There are no
other operands, assigned names or names of parameters that look like temporaries, and a callee looks like one only if the
program has a function of that name. -/
theorem temporaries_used_once {program : List Stmt} {code : Code} {drafts : List Draft} {names : Names}
    (hfree : ∀ m ∈ Stmt.blockMentions program, m.isReserved = false)
    (hnames : stmtsCode program false 0 .initial = .ok (drafts, names)) (hcode : generate program = .ok code) :
    (∃ assigned read : Nat → Nat, (∀ m < names.temps, UsedOnce code (temp m) (assigned m) (read m))
        ∧ ∀ m m', m < m' → m' < names.temps → assigned m < assigned m')
      ∧ (∀ i ∈ code, ∀ x ∈ i.operands ++ i.binds?.toList, isReserved x = true → ∃ m < names.temps, x = temp m)
      ∧ ∀ i ∈ code, ∀ site, i.callSite? = some site → .function site.callee ∈ Stmt.blockMentions program := by
  obtain ⟨⟨account, hbooked⟩, hcalls⟩ := booked_of_generate hfree hnames hcode
  exact ⟨hbooked.exists_usedOnce, fun i hi x hx hreserved => hbooked.exists_temp hi hx hreserved, hcalls⟩

/-- The first argument of the outer call waits while the inner call is made, which lacks an argument. A variable and a
builtin have names that come close to those of temporaries. -/
def nestedCalls : List Stmt :=
  [.function "f" ["a", "b"] [.ret (some (.name "a"))],
    .loop (.call "f" [.name "x", .call "f" [.unary [.minus, .not] (.name "__tmp")]])
      [.assign "x" (.chain .sum [.name "x", .call "__tmp7" [.paren (.name "x"), .literal .number "1"]] [.sub])]]

theorem temporaries_used_once_nested :
    ∃ code drafts names, generate nestedCalls = .ok code
      ∧ stmtsCode nestedCalls false 0 .initial = .ok (drafts, names) ∧ names.temps = 12 ∧ UsedOnce code (temp 6) 13 20 := by
  have hfree : ∀ m ∈ Stmt.blockMentions nestedCalls, m.isReserved = false := by decide
  have hgenerate : ∃ code drafts names, generate nestedCalls = .ok code
      ∧ stmtsCode nestedCalls false 0 .initial = .ok (drafts, names) ∧ names.temps = 12
      ∧ code[13]? = some (.assign (temp 6) (.single "x")) ∧ code[20]? = some (.param (temp 6) (some "a")) :=
    ⟨_, _, _, rfl, rfl, rfl, rfl, rfl⟩
  obtain ⟨code, drafts, names, hcode, hnames, htemps, hassign, hparam⟩ := hgenerate
  obtain ⟨⟨assigned, read, hused, -⟩, -⟩ := temporaries_used_once hfree hnames hcode
  have hsix := hused 6 (by rw [htemps]; decide)
  have hassigned : 13 = assigned 6 := (hsix.assigned_iff 13).1 ⟨_, hassign, rfl⟩
  have hread : 20 = read 6 := (hsix.read_iff 20).1 ⟨_, hparam, List.mem_singleton_self _⟩
  rw [← hassigned, ← hread] at hsix
  exact ⟨code, drafts, names, hcode, hnames, htemps, hsix⟩

end Ir

end Scriptlet
