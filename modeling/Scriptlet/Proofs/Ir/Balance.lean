import Mathlib.Tactic
import Scriptlet.Proofs.Ir.Machine
import Scriptlet.Proofs.Machine.Safety

/-!
# Balanced code

Code is balanced if every call finds exactly the parameters that it takes and nothing else finds any, read from the
first instruction to the last, and if jumps and calls go to places where no parameter is pushed. A run of balanced
code never gets stuck, and what parameters are pushed at a place is known from the place alone.
-/

namespace Scriptlet.Ir

/-! ## Pushed parameters -/

/-- The names of the pushed parameters after an instruction, the latest first; none if the instruction does not go with
those pushed before it. -/
def Instruction.settle (pushed : List (Option String)) : Instruction → Option (List (Option String))
  | param _ name => some (name :: pushed)
  | i =>
    match i.callSite? with
    | some site =>
      if site.argc = pushed.length ∧ (site.target.isSome → ∀ name ∈ pushed, name.isSome) then some [] else none
    | none => if pushed = [] then some [] else none

/-- The names of the pushed parameters after code. -/
def scan (pushed : List (Option String)) (code : Code) : Option (List (Option String)) :=
  code.foldlM Instruction.settle pushed

/-- Places of instructions where no parameter is pushed. -/
def Rests (code : Code) (place : Nat) : Prop :=
  place < code.length ∧ scan [] (code.take place) = some []

/-- All parameters that are pushed are taken, jumps and calls go to resting places, and the last instruction ends the
run. -/
structure Balanced (code : Code) : Prop where
  settled : scan [] code = some []
  target : ∀ i ∈ code, ∀ t, i.target? = some t → Rests code t
  last : code.getLast? = some .stop

theorem scan_append {pushed pushed' : List (Option String)} {code : Code} (h : scan pushed code = some pushed')
    (rest : Code) : scan pushed (code ++ rest) = scan pushed' rest := by
  rw [scan, List.foldlM_append, ← scan, h]
  rfl

theorem exists_scan_of_append {pushed pushed' : List (Option String)} {code rest : Code}
    (h : scan pushed (code ++ rest) = some pushed') :
    ∃ between, scan pushed code = some between ∧ scan between rest = some pushed' := by
  rw [scan, List.foldlM_append] at h
  exact Option.bind_eq_some_iff.1 h

theorem scan_singleton (pushed : List (Option String)) (i : Instruction) : scan pushed [i] = i.settle pushed := by
  rw [scan, List.foldlM_cons]
  cases i.settle pushed <;> rfl

theorem settle_call {i : Instruction} {site : CallSite} (hsite : i.callSite? = some site)
    (pushed : List (Option String)) :
    i.settle pushed = if site.argc = pushed.length ∧ (site.target.isSome → ∀ name ∈ pushed, name.isSome)
      then some [] else none := by
  cases i with
  | assign x rhs =>
      cases rhs with
      | call site' => cases hsite; rfl
      | _ => cases hsite
  | call site' => cases hsite; rfl
  | _ => cases hsite

theorem settle_other {i : Instruction} (hsite : i.callSite? = none) (hparam : ∀ x name, i ≠ .param x name)
    (pushed : List (Option String)) : i.settle pushed = if pushed = [] then some [] else none := by
  cases i with
  | assign x rhs =>
      cases rhs with
      | call site => cases hsite
      | _ => rfl
  | param x name => exact absurd rfl (hparam x name)
  | call site => cases hsite
  | _ => rfl

theorem scan_params {code : Code} (h : ∀ i ∈ code, ∃ x name, i = .param x name) (pushed : List (Option String)) :
    scan pushed code = some ((code.map Instruction.binds?).reverse ++ pushed) := by
  induction code generalizing pushed with
  | nil => rfl
  | cons i code ih =>
      obtain ⟨x, name, rfl⟩ := h i List.mem_cons_self
      have hrest := ih (fun j hj => h j (List.mem_cons_of_mem _ hj)) (name :: pushed)
      rw [List.map_cons, List.reverse_cons, List.append_assoc]
      exact hrest

/-! ## Safe states -/

/-- A call that waits has used its parameters. -/
structure Waiting (code : Code) (place : Nat) (act : Activation) : Prop where
  pending : act.pending = []
  call : ∃ i site, code[place]? = some i ∧ i.callSite? = some site
  after : Rests code (place + 1)

variable {σ : Type}

/-- A state in which the pushed parameters are those of the place. -/
structure Safe (code : Code) (s : State σ) : Prop where
  place : s.place < code.length
  pending : scan [] (code.take s.place) = some (s.current.pending.map Prod.fst)
  callers : ∀ waiting ∈ s.callers, Waiting code waiting.1 waiting.2

/-- A step leads to a safe state, or the run ends properly. -/
def Transition.IsSafe (code : Code) : Transition σ → Prop
  | .more s => Safe code s
  | .done _ (.error e) => e.isProgramError = true
  | .done _ (.ok _) => True

section Safety

variable {code : Code} {s : State σ} {literal : Value → Value} {limit : Nat}

theorem safe_initial (hcode : Balanced code) (console : σ) : Safe code (.initial console) := by
  have hne : code ≠ [] := by
    rintro rfl
    cases hcode.last
  exact ⟨List.length_pos_iff.2 hne, rfl, fun _ h => absurd h List.not_mem_nil⟩

/-- Only the last instruction has no instruction after it. -/
theorem Balanced.succ_lt (hcode : Balanced code) {place : Nat} {i : Instruction} (hi : code[place]? = some i)
    (hstop : i ≠ .stop) : place + 1 < code.length := by
  have hlt := (List.getElem?_eq_some_iff.1 hi).1
  by_contra hnot
  have hplace : place = code.length - 1 := by omega
  have hlast := hcode.last
  rw [List.getLast?_eq_getElem?, ← hplace, hi] at hlast
  cases hlast
  exact hstop rfl

/-- What is pushed after an instruction is what it leaves. -/
theorem Safe.settle (hcode : Balanced code) (h : Safe code s) {i : Instruction} (hi : code[s.place]? = some i) :
    ∃ pushed, i.settle (s.current.pending.map Prod.fst) = some pushed
      ∧ scan [] (code.take (s.place + 1)) = some pushed := by
  have htake : code.take (s.place + 1) = code.take s.place ++ [i] := by
    rw [List.take_add_one, hi, Option.toList_some]
  have hsplit : code = code.take (s.place + 1) ++ code.drop (s.place + 1) := (List.take_append_drop _ _).symm
  have hsettled := hcode.settled
  rw [hsplit, htake] at hsettled
  obtain ⟨pushed, hpushed, -⟩ := exists_scan_of_append hsettled
  rw [htake]
  refine ⟨pushed, ?_, hpushed⟩
  rw [scan_append h.pending, scan_singleton] at hpushed
  exact hpushed

theorem Safe.pending_eq_nil (hcode : Balanced code) (h : Safe code s) {i : Instruction} (hi : code[s.place]? = some i)
    (hsite : i.callSite? = none) (hparam : ∀ x name, i ≠ .param x name) :
    s.current.pending = [] ∧ scan [] (code.take (s.place + 1)) = some [] := by
  obtain ⟨pushed, hsettle, hscan⟩ := h.settle hcode hi
  rw [settle_other hsite hparam] at hsettle
  split at hsettle
  · rename_i hnil
    cases hsettle
    exact ⟨List.map_eq_nil_iff.1 hnil, hscan⟩
  · cases hsettle

theorem Safe.next (hcode : Balanced code) (h : Safe code s) {i : Instruction} (hi : code[s.place]? = some i)
    (hstop : i ≠ .stop) (hsite : i.callSite? = none) (hparam : ∀ x name, i ≠ .param x name) : Safe code s.next := by
  obtain ⟨hpending, hscan⟩ := h.pending_eq_nil hcode hi hsite hparam
  exact ⟨hcode.succ_lt hi hstop, by rw [State.next, hpending]; exact hscan, h.callers⟩

theorem Safe.jump (hcode : Balanced code) (h : Safe code s) {i : Instruction} (hi : code[s.place]? = some i)
    (hsite : i.callSite? = none) (hparam : ∀ x name, i ≠ .param x name) {t : Nat} (ht : i.target? = some t) :
    Safe code { s with place := t } := by
  obtain ⟨hlt, hscan⟩ := hcode.target i (List.mem_of_getElem? hi) t ht
  obtain ⟨hpending, -⟩ := h.pending_eq_nil hcode hi hsite hparam
  exact ⟨hlt, by rw [hpending]; exact hscan, h.callers⟩

theorem Safe.deliver (h : Safe code s.next) (name : Option String) (v : Value) : Safe code (s.deliver name v) := by
  cases name with
  | none => exact h
  | some x => exact ⟨h.place, h.pending, h.callers⟩

theorem Safe.assign (h : Safe code s.next) (x : String) {r : Except RuntimeError Value}
    (hr : ∀ e, r = .error e → e.isProgramError = true) : (s.assign x r).IsSafe code := by
  cases r with
  | error e => exact hr e rfl
  | ok v => exact h.deliver (some x) v

theorem named?_of_isSome {pending : List Parameter} (h : ∀ name ∈ pending.map Prod.fst, name.isSome) :
    ∃ args, named? pending = some args := by
  induction pending with
  | nil => exact ⟨[], rfl⟩
  | cons p pending ih =>
      obtain ⟨name, v⟩ := p
      obtain ⟨hname, hrest⟩ := List.forall_mem_cons.1 h
      obtain ⟨x, rfl⟩ := Option.isSome_iff_exists.1 hname
      obtain ⟨args, hargs⟩ := ih hrest
      exact ⟨(x, v) :: args, by rw [named?, hargs, Option.map_some]⟩

variable [Streams σ]

/-- A call finds what it needs and leaves nothing. -/
theorem Safe.call (hcode : Balanced code) (h : Safe code s) {i : Instruction} {site : CallSite}
    (hi : code[s.place]? = some i) (hsite : i.callSite? = some site) :
    ∃ t, s.call limit i.binds? site = some t ∧ t.IsSafe code := by
  obtain ⟨pushed, hsettle, hscan⟩ := h.settle hcode hi
  rw [settle_call hsite, List.length_map] at hsettle
  split at hsettle
  case isFalse => cases hsettle
  rename_i hargs
  obtain ⟨hargc, hnames⟩ := hargs
  cases hsettle
  have hdrop : (s.dropParameters site.argc).current.pending = [] := by
    rw [State.dropParameters, hargc, List.drop_length]
  have hafter : s.place + 1 < code.length := hcode.succ_lt hi (ne_of_callSite? hsite rfl)
  rw [State.call]
  cases hentry : site.target with
  | none =>
      dsimp only
      rw [if_pos hargc.le]
      refine ⟨_, rfl, ?_⟩
      rw [State.callBuiltin]
      split
      · rfl
      · split
        · rename_i v console _
          refine Safe.deliver (s := { s.dropParameters site.argc with console }) ⟨hafter, ?_, h.callers⟩ _ _
          show scan [] (code.take (s.place + 1)) = some ((s.dropParameters site.argc).current.pending.map Prod.fst)
          rw [hdrop]
          exact hscan
        · rfl
  | some entry =>
      dsimp only
      split
      · exact ⟨_, rfl, rfl⟩
      · obtain ⟨hlt, hrest⟩ := hcode.target i (List.mem_of_getElem? hi) entry ((target?_of_callSite? hsite).trans hentry)
        have hsome : ∀ name ∈ (s.parameters site.argc).map Prod.fst, name.isSome := by
          intro name hname
          obtain ⟨p, hp, rfl⟩ := List.mem_map.1 hname
          have hmem := List.mem_of_mem_take (List.mem_reverse.1 hp)
          exact hnames (by rw [hentry]; rfl) _ (List.mem_map_of_mem hmem)
        obtain ⟨args, hargs⟩ := named?_of_isSome hsome
        rw [if_pos hargc.le, hargs]
        refine ⟨_, rfl, hlt, hrest, ?_⟩
        intro waiting hwaiting
        rcases List.mem_cons.1 hwaiting with rfl | hold
        · exact ⟨hdrop, ⟨i, site, hi, hsite⟩, hafter, hscan⟩
        · exact h.callers waiting hold

omit [Streams σ] in
/-- A return finds the call that waits for it. -/
theorem Safe.ret (hcode : Balanced code) (h : Safe code s) {x : String} (hi : code[s.place]? = some (.ret x))
    (v : Value) : ∃ t, s.ret code v = some t ∧ t.IsSafe code := by
  obtain ⟨hpending, -⟩ := h.pending_eq_nil hcode hi rfl nofun
  rw [State.ret]
  cases hcallers : s.callers with
  | nil => exact ⟨_, rfl, trivial⟩
  | cons waiting callers =>
      obtain ⟨place, caller⟩ := waiting
      have hwaiting : Waiting code place caller := h.callers (place, caller) (by rw [hcallers]; exact List.mem_cons_self)
      obtain ⟨j, site, hj, hsite⟩ := hwaiting.call
      dsimp only
      rw [if_pos (List.isEmpty_iff.2 hpending), hj]
      dsimp only
      rw [if_pos (by rw [hsite]; rfl)]
      refine ⟨_, rfl, Safe.deliver (s := ⟨place, caller, callers, s.console⟩) ⟨hwaiting.after.1, ?_, ?_⟩ _ _⟩
      · show scan [] (code.take (place + 1)) = some (caller.pending.map Prod.fst)
        rw [hwaiting.pending]
        exact hwaiting.after.2
      · intro other hother
        exact h.callers other (by rw [hcallers]; exact List.mem_cons_of_mem _ hother)

/-- Balanced code never gets stuck. -/
theorem Safe.step (hcode : Balanced code) (h : Safe code s) : ∃ t, step literal code limit s = some t ∧ t.IsSafe code := by
  obtain ⟨i, hi⟩ : ∃ i, code[s.place]? = some i := ⟨_, List.getElem?_eq_getElem h.place⟩
  rw [Ir.step, hi]
  cases i with
  | goto t => exact ⟨_, rfl, h.jump hcode hi rfl nofun rfl⟩
  | branch x t =>
      refine ⟨_, rfl, ?_⟩
      cases (readOperand literal s.current.env x).truthy with
      | true => exact h.jump hcode hi rfl nofun rfl
      | false => exact h.next hcode hi nofun rfl nofun
  | assign x rhs =>
      cases rhs with
      | single y => exact ⟨_, rfl, (h.next hcode hi nofun rfl nofun).assign x nofun⟩
      | unary op y =>
          exact ⟨_, rfl, (h.next hcode hi nofun rfl nofun).assign x fun e he =>
            RuntimeError.isProgramError_of_isOperandError (UnaryOp.apply_isOperandError he)⟩
      | binary op y z =>
          exact ⟨_, rfl, (h.next hcode hi nofun rfl nofun).assign x fun e he =>
            RuntimeError.isProgramError_of_isOperandError (BinaryOp.apply_isOperandError he)⟩
      | call site => exact h.call hcode hi rfl
  | ret x => exact h.ret hcode hi _
  | param x name =>
      obtain ⟨pushed, hsettle, hscan⟩ := h.settle hcode hi
      cases hsettle
      exact ⟨_, rfl, hcode.succ_lt hi nofun, hscan, h.callers⟩
  | call site => exact h.call hcode hi rfl
  | stop => exact ⟨_, rfl, trivial⟩
  | blank => exact ⟨_, rfl, h.next hcode hi nofun rfl nofun⟩

theorem Safe.of_step {s' : State σ} (hcode : Balanced code) (h : Safe code s)
    (hstep : Ir.step literal code limit s = some (.more s')) : Safe code s' := by
  obtain ⟨t, ht, hsafe⟩ : ∃ t, Ir.step literal code limit s = some t ∧ t.IsSafe code := h.step hcode
  rw [hstep] at ht
  cases ht
  exact hsafe

end Safety

end Scriptlet.Ir
