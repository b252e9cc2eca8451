import Mathlib.Tactic
import Scriptlet.Proofs.Compilation
import Scriptlet.Proofs.Interpreter.Statements

/-!
# Compiled programs do what they say

A source text that is compiled and run gives what the interpreter gives for its syntax tree, and so it does after its
operations went through an image.
-/

namespace Scriptlet

open Bytecode (operations Faithful Corresponds address isVariable)
open Ir (Code Balanced Safe State)
open Interpreter (Path Runs programTexts)

variable {σ : Type} [Streams σ]

/-! ## Paths of code and runs of machines -/

section Paths

variable {code : Code}

/-- A machine follows a path of code and takes at least as many steps. -/
theorem Interpreter.Path.run (h : Faithful Value.reread code) (hcode : Balanced code) {n limit : Nat} {s s' : State σ}
    (hpath : Path code limit n s s') {m : Machine σ} (hlimit : m.limit = limit)
    (hm : Corresponds Value.reread code s m) (hs : Safe code s) :
    ∃ k m', n ≤ k ∧ (∀ fuel, Machine.run (k + fuel) m = Machine.run fuel m') ∧ m'.limit = limit
      ∧ Corresponds Value.reread code s' m' ∧ Safe code s' := by
  induction hpath generalizing m with
  | refl s => exact ⟨0, m, le_rfl, fun fuel => by rw [Nat.zero_add], hlimit, hm, hs⟩
  | @blank n s s' hi _ ih =>
      have hstep : Ir.step Value.reread code limit s = some (.more s.next) := Interpreter.step_of_getElem? hi
      exact ih hlimit (hm.blank hi) (hs.of_step hcode hstep)
  | @live n s s₁ s' hlive hstep _ ih =>
      subst hlimit
      obtain ⟨k, m₁, hwalk, hmatch⟩ := Bytecode.simulates_step h hm hlive (Bytecode.pending_lt hs h.size) hstep
      have hrunning : m₁.status = .running := hwalk.status.trans hm.running
      cases hstep₁ : m₁.step with
      | done m₂ outcome =>
          rw [hstep₁] at hmatch
          cases hmatch
      | more m₂ =>
          rw [hstep₁] at hmatch
          obtain ⟨hm₂, hlimit⟩ := hmatch
          obtain ⟨j, m', hj, hrun, hlimit', hm', hs'⟩ := ih hlimit hm₂ (hs.of_step hcode hstep)
          refine ⟨k + (j + 1), m', by omega, fun fuel => ?_, hlimit', hm', hs'⟩
          rw [Nat.add_assoc, Machine.run_walk hwalk hm.running, Nat.add_right_comm, Machine.run, if_pos hrunning, hstep₁]
          exact hrun fuel

end Paths

/-! ## Programs -/

section Programs

variable {program : List Stmt} {code : Code} (hwf : Stmt.blockWellFormed program = true)
  (hfits : Stmt.BlockFits programTexts program) (harena : Ir.arena program = .ok code)
  (h : Faithful Value.reread code) (hcode : Balanced code) {limit fuel : Nat} {console : σ}

include hwf hfits harena h hcode

theorem run_of_exhausted (hrun : Interpreter.run fuel program limit console = none) :
    Machine.run fuel (.ofOps (operations Value.reread code) limit console) = none := by
  have hruns := Interpreter.runs_arena hwf hfits harena limit fuel console
  rw [hrun] at hruns
  obtain ⟨n, s, hn, hpath⟩ := hruns
  obtain ⟨k, m, hk, hmachine, -⟩ := hpath.run h hcode rfl (Bytecode.corresponds_initial ..) (Ir.safe_initial hcode console)
  have hnone := hmachine 0
  cases hresult : Machine.run fuel (.ofOps (operations Value.reread code) limit console) with
  | none => rfl
  | some r =>
      -- After `k` steps the machine is still under way, so it had not ended before.
      have hsome := Machine.run_add hresult (k - fuel)
      rw [show fuel + (k - fuel) = k + 0 by omega, hnone] at hsome
      cases hsome

theorem run_of_result {outcome : Outcome} {console' : σ}
    (hrun : Interpreter.run fuel program limit console = some (outcome, console')) :
    ∃ steps m, Machine.run steps (.ofOps (operations Value.reread code) limit console) = some (m, outcome)
      ∧ m.console = console' := by
  have hruns := Interpreter.runs_arena hwf hfits harena limit fuel console
  rw [hrun] at hruns
  obtain ⟨n, s, hpath, hstep⟩ : ∃ n s, Path code limit n (.initial console) s
      ∧ Ir.step Value.reread code limit s = some (.done console' outcome) := by
    cases outcome <;> exact hruns
  obtain ⟨k, m, -, hmachine, rfl, hm, hs⟩ :=
    hpath.run h hcode rfl (Bytecode.corresponds_initial ..) (Ir.safe_initial hcode console)
  have hlive : code[s.place]? ≠ some .blank := by
    intro hblank
    rw [Interpreter.step_of_getElem? hblank] at hstep
    cases hstep
  obtain ⟨j, m₁, hwalk, hmatch⟩ := Bytecode.simulates_step h hm hlive (Bytecode.pending_lt hs h.size) hstep
  have hrunning : m₁.status = .running := hwalk.status.trans hm.running
  cases hstep₁ : m₁.step with
  | more m₂ =>
      rw [hstep₁] at hmatch
      cases hmatch
  | done m₂ outcome' =>
      rw [hstep₁] at hmatch
      obtain ⟨hconsole, rfl⟩ := hmatch
      refine ⟨k + (j + 1), m₂, ?_, hconsole⟩
      rw [hmachine, Machine.run_walk hwalk hm.running, Machine.run_done hrunning hstep₁]

theorem run_iff_interpreted {outcome : Outcome} {console' : σ} :
    (∃ steps m, Machine.run steps (.ofOps (operations Value.reread code) limit console) = some (m, outcome)
        ∧ m.console = console')
      ↔ ∃ fuel, Interpreter.run fuel program limit console = some (outcome, console') := by
  constructor
  · rintro ⟨steps, m, hmachine, rfl⟩
    cases hrun : Interpreter.run steps program limit console with
    | none =>
        rw [run_of_exhausted hwf hfits harena h hcode hrun] at hmachine
        cases hmachine
    | some r =>
        obtain ⟨outcome', console'⟩ := r
        obtain ⟨steps', m', hmachine', rfl⟩ := run_of_result hwf hfits harena h hcode hrun
        have hlong := Machine.run_add hmachine' steps
        rw [Nat.add_comm, Machine.run_add hmachine steps'] at hlong
        cases hlong
        exact ⟨steps, hrun⟩
  · rintro ⟨fuel, hrun⟩
    exact run_of_result hwf hfits harena h hcode hrun

end Programs

/-! ## Source texts -/

/-- The texts of tokens are those of a program if its names are variables and no temporaries. -/
theorem fits_programTexts {source : String} {tokens : List Token} (htokens : tokenize source = .ok tokens)
    (hnames : ∀ t ∈ tokens, t.tag = .name → isVariable t.text = true ∧ ∀ n, t.text ≠ Ir.temp n) :
    ∀ t ∈ tokens, t.Fits programTexts := by
  intro t ht
  refine ⟨fun htag => ?_, fun kind htag => (scanned_of_tokenize htokens t ht).literalText htag⟩
  obtain ⟨hvariable, htemp⟩ := hnames t ht htag
  exact ⟨hvariable, fun n _ => htemp n⟩

theorem runSource_eq {source : String} {bytes : List UInt8} {ops : List Op} (himage : imageOfSource source = .ok bytes)
    (hdecode : Image.decode bytes = .ok ops) (fuel limit : Nat) (console : σ) :
    runSource fuel source limit console
      = (Machine.run fuel (.ofOps ops limit console)).map fun r => (r.2.mapError .runtime, r.1.console) := by
  rw [runSource, himage]
  dsimp only
  rw [runImage, hdecode]
  dsimp only
  cases Machine.run fuel (.ofOps ops limit console) <;> rfl

/-- A source text that can be compiled, to so few operations that their addresses are kept exactly, gives what its
syntax tree means: the same value or error, and the same console. Its names must not be taken for literals or
temporaries. -/
theorem runSource_iff_interpreted {source : String} {tokens : List Token} {program : List Stmt} {ops : List Op}
    {bytes : List UInt8} (htokens : tokenize source = .ok tokens) (hprogram : parse tokens = .ok program)
    (hops : opsOfSource source = .ok ops) (himage : imageOfSource source = .ok bytes) (hsize : ops.length < 2 ^ 53)
    (hnames : ∀ t ∈ tokens, t.tag = .name → isVariable t.text = true ∧ ∀ n, t.text ≠ Ir.temp n)
    (limit : Nat) (console : σ) (result : Except RunError (Option Value) × σ) :
    (∃ fuel, runSource fuel source limit console = some result)
      ↔ ∃ fuel, (Interpreter.run fuel program limit console).map (fun r => (r.1.mapError .runtime, r.2)) = some result := by
  obtain ⟨tokens, program, code, htokens', hprogram', harena, rfl⟩ := exists_of_opsOfSource hops
  cases htokens.symm.trans htokens'
  cases hprogram.symm.trans hprogram'
  obtain ⟨ops, hops', hencode⟩ := exists_of_imageOfSource himage
  cases hops.symm.trans hops'
  obtain ⟨hbalanced, hcallees⟩ := balanced_of_tokenize htokens hprogram harena
  rw [Bytecode.length_operations] at hsize
  have hfaithful : Faithful Value.reread code :=
    faithful_of_balanced hbalanced hsize (fun n hn => Value.reread_ofIndex hn) Value.reread_nil hcallees
  have heof : ∀ t ∈ tokens, t.tag ≠ .eof := fun t ht => (scanned_of_tokenize htokens t ht).tag_ne_eof
  have hwf := (unparse_of_parse heof hprogram).1
  have hfits := blockFits_of_parse heof hprogram (fits_programTexts htokens hnames)
  simp only [runSource_eq himage (decode_of_encode hsize hencode), Option.map_eq_some_iff]
  constructor
  · rintro ⟨steps, ⟨m, outcome⟩, hmachine, rfl⟩
    obtain ⟨fuel, hrun⟩ := (run_iff_interpreted hwf hfits harena hfaithful hbalanced).1 ⟨steps, m, hmachine, rfl⟩
    exact ⟨fuel, (outcome, m.console), hrun, rfl⟩
  · rintro ⟨fuel, ⟨outcome, console'⟩, hrun, rfl⟩
    obtain ⟨steps, m, hmachine, rfl⟩ := (run_iff_interpreted hwf hfits harena hfaithful hbalanced).2 ⟨fuel, hrun⟩
    exact ⟨steps, (m, outcome), hmachine, rfl⟩

/-- A recursive function that prints on the way, called from the test and the body of a loop. -/
theorem runSource_iff_interpreted_recursion :
    ∃ source tokens program ops bytes,
      source = "function f(x) if x then print(x) return f() end return \"done\" end while f() do return f(true) end"
      ∧ tokenize source = .ok tokens ∧ parse tokens = .ok program ∧ opsOfSource source = .ok ops
      ∧ imageOfSource source = .ok bytes ∧ ops.length < 2 ^ 53
      ∧ (∀ t ∈ tokens, t.tag = .name → isVariable t.text = true ∧ ∀ n, t.text ≠ Ir.temp n)
      ∧ ∃ fuel, runSource fuel source 3 (Console.new [] none none)
        = some (.ok (some (.string "done")), ⟨[], Text.utf8 "true\n", none, 1, none⟩) := by
  obtain ⟨source, hsource⟩ : ∃ source, source
      = "function f(x) if x then print(x) return f() end return \"done\" end while f() do return f(true) end" := ⟨_, rfl⟩
  have htokens : (tokenize source).toOption.any (fun tokens => (parse tokens).toOption.any (fun program =>
      Interpreter.run 3 program 3 (Console.new [] none none)
          = some (.ok (some (.string "done")), ⟨[], Text.utf8 "true\n", none, 1, none⟩)
        && tokens.all fun t => t.tag != .name || (isVariable t.text && t.text.toList.head? != some '_'))) = true := by
    rw [hsource]
    decide +kernel
  have hops : (opsOfSource source).toOption.any (fun ops => ops.length < 2 ^ 53) = true := by
    rw [hsource]
    decide +kernel
  have hbytes : (imageOfSource source).toOption.any (fun _ => true) = true := by
    rw [hsource]
    decide +kernel
  obtain ⟨tokens, htokens, hprogram⟩ := exists_ok_of_any htokens
  obtain ⟨program, hprogram, hrun⟩ := exists_ok_of_any hprogram
  obtain ⟨ops, hops, hsize⟩ := exists_ok_of_any hops
  obtain ⟨bytes, hbytes, -⟩ := exists_ok_of_any hbytes
  simp only [Bool.and_eq_true, decide_eq_true_eq, List.all_eq_true, Bool.or_eq_true, bne_iff_ne] at hrun hsize
  obtain ⟨hrun, hall⟩ := hrun
  have hnames : ∀ t ∈ tokens, t.tag = .name → isVariable t.text = true ∧ ∀ n, t.text ≠ Ir.temp n := by
    intro t ht htag
    obtain ⟨hvariable, hhead⟩ := (hall t ht).resolve_left (absurd htag)
    exact ⟨hvariable, Interpreter.ne_temp hhead⟩
  refine ⟨source, tokens, program, ops, bytes, hsource, htokens, hprogram, hops, hbytes, hsize, hnames, ?_⟩
  refine (runSource_iff_interpreted htokens hprogram hops hbytes hsize hnames 3 _ _).2 ⟨3, ?_⟩
  rw [hrun]
  rfl

end Scriptlet
