import Mathlib.Tactic
import Scriptlet.Bytecode.Lower
import Scriptlet.Machine.Basic
import Scriptlet.Proofs.Interpreter.Basic

/-!
# A machine for three-address code

The meaning of code without slots, addresses and operand stacks. An activation has an environment, which maps names to
values, and the parameters that were pushed for a call still to come. A step is undefined where code makes no sense:
a call that finds too few parameters, a parameter without a name for a function of the program, a return that leaves
parameters behind.

How literals are seen is a parameter, since operations may have gone through an image before they run.
-/

namespace Scriptlet.Ir

/-- The value of an operand: that of a quoted text, a variable or another literal. -/
def readOperand (literal : Value → Value) (env : Env) (text : String) : Value :=
  match Bytecode.unquoted? text with
  | some s => literal (.string s)
  | none => if Bytecode.isVariable text then env text else literal (.ofLiteral text)

/-! ## States -/

/-- A parameter that was pushed, with the name it is for if it has one. -/
abbrev Parameter := Option String × Value

/-- The environment and the pushed parameters of one activation, the latest parameter first. -/
structure Activation where
  env : Env
  pending : List Parameter

/-- A state: the place of the next instruction, the current activation, the activations that wait for a call to return,
nearest first, each with the place of its call, and the console. -/
structure State (σ : Type) where
  place : Nat
  current : Activation
  callers : List (Nat × Activation)
  console : σ

/-- What a step leads to. -/
inductive Transition (σ : Type) where
  | more (s : State σ)
  | done (console : σ) (outcome : Outcome)

/-- The call that an instruction makes. -/
def Instruction.callSite? : Instruction → Option CallSite
  | assign _ (.call site) => some site
  | call site => some site
  | _ => none

/-- Parameters that all have names. -/
def named? : List Parameter → Option (List (String × Value))
  | [] => some []
  | (some name, v) :: rest => (named? rest).map ((name, v) :: ·)
  | (none, _) :: _ => none

namespace State

variable {σ : Type}

/-- The state before the first instruction. -/
def initial (console : σ) : State σ :=
  ⟨0, ⟨.empty, []⟩, [], console⟩

/-- Goes on with the next instruction. -/
def next (s : State σ) : State σ :=
  { s with place := s.place + 1 }

/-- Binds a name in the current activation, if there is one to bind, and goes on. -/
def deliver (s : State σ) (destination : Option String) (v : Value) : State σ :=
  match destination with
  | some x => { s.next with current := { s.current with env := s.current.env.set x v } }
  | none => s.next

/-- Pushes a parameter and goes on. -/
def push (s : State σ) (p : Parameter) : State σ :=
  { s.next with current := { s.current with pending := p :: s.current.pending } }

/-- Takes parameters away from the current activation. -/
def dropParameters (s : State σ) (count : Nat) : State σ :=
  { s with current := { s.current with pending := s.current.pending.drop count } }

/-- The parameters of a call, in the order in which they were pushed. -/
def parameters (s : State σ) (count : Nat) : List Parameter :=
  (s.current.pending.take count).reverse

/-- Enters a function. -/
def enter (s : State σ) (entry count : Nat) (args : List (String × Value)) : State σ :=
  { place := entry
    current := ⟨Env.empty.setAll args, []⟩
    callers := (s.place, (s.dropParameters count).current) :: s.callers
    console := s.console }

/-- Calls a builtin whose result goes to `destination`. -/
def callBuiltin [Streams σ] (s : State σ) (destination : Option String) (site : CallSite) : Transition σ :=
  match Builtin.ofName? site.callee with
  | none => .done s.console (.error (.unknownBuiltin site.callee))
  | some b =>
    match b.run ((s.parameters site.argc).map (·.2)) s.console with
    | .ok v console => .more ({ s.dropParameters site.argc with console }.deliver destination v)
    | .error e console => .done console (.error (.console e))

/-- Makes a call whose result goes to `destination`. -/
def call [Streams σ] (s : State σ) (limit : Nat) (destination : Option String) (site : CallSite) : Option (Transition σ) :=
  match site.target with
  | some entry =>
    if limit ≤ s.callers.length + 1 then some (.done s.console (.error (.stackOverflow limit)))
    else if site.argc ≤ s.current.pending.length then
      (named? (s.parameters site.argc)).map fun args => .more (s.enter entry site.argc args)
    else none
  | none =>
    if site.argc ≤ s.current.pending.length then some (s.callBuiltin destination site) else none

/-- Returns from a function; the call that is waiting gets the value. -/
def ret (s : State σ) (code : Code) (v : Value) : Option (Transition σ) :=
  match s.callers with
  | [] => some (.done s.console (.ok (some v)))
  | (place, caller) :: callers =>
    if s.current.pending.isEmpty then
      match code[place]? with
      | some i =>
        if i.callSite?.isSome then
          some (.more ({ place, current := caller, callers, console := s.console : State σ }.deliver i.binds? v))
        else none
      | none => none
    else none

/-- The result of a computation goes to a name, unless it failed. -/
def assign (s : State σ) (x : String) : Except RuntimeError Value → Transition σ
  | .ok v => .more (s.deliver (some x) v)
  | .error e => .done s.console (.error e)

@[simp]
theorem callers_deliver (s : State σ) (destination : Option String) (v : Value) :
    (s.deliver destination v).callers = s.callers := by
  cases destination <;> rfl

end State

/-! ## Steps -/

variable {σ : Type} [Streams σ]

/-- What an instruction does; `none` where that is undefined. -/
def Instruction.perform (literal : Value → Value) (code : Code) (limit : Nat) (s : State σ) :
    Instruction → Option (Transition σ)
  | goto t => some (.more { s with place := t })
  | branch x t =>
    some (.more { s with place := if (readOperand literal s.current.env x).truthy then t else s.place + 1 })
  | assign x (.single y) => some (s.assign x (.ok (readOperand literal s.current.env y)))
  | assign x (.unary op y) => some (s.assign x (op.apply (readOperand literal s.current.env y)))
  | assign x (.binary op y z) =>
    some (s.assign x (op.apply (readOperand literal s.current.env y) (readOperand literal s.current.env z)))
  | assign x (.call site) => s.call limit (some x) site
  | ret x => s.ret code (readOperand literal s.current.env x)
  | param x name => some (.more (s.push (name, readOperand literal s.current.env x)))
  | call site => s.call limit none site
  | stop => some (.done s.console (.ok none))
  | blank => some (.more s.next)

section CallSites

variable {i : Instruction} {site : CallSite}

theorem target?_of_callSite? (hsite : i.callSite? = some site) : i.target? = site.target := by
  cases i with
  | assign x rhs =>
      cases rhs with
      | call site' => cases hsite; rfl
      | _ => cases hsite
  | call site' => cases hsite; rfl
  | _ => cases hsite

theorem perform_of_callSite? (hsite : i.callSite? = some site) (literal : Value → Value) (code : Code) (limit : Nat)
    (s : State σ) : i.perform literal code limit s = s.call limit i.binds? site := by
  cases i with
  | assign x rhs =>
      cases rhs with
      | call site' => cases hsite; rfl
      | _ => cases hsite
  | call site' => cases hsite; rfl
  | _ => cases hsite

theorem ne_of_callSite? (hsite : i.callSite? = some site) {j : Instruction} (hj : j.callSite? = none) : i ≠ j := by
  rintro rfl
  rw [hsite] at hj
  cases hj

end CallSites

/-- A step of code. Behind the last instruction it ends. -/
def step (literal : Value → Value) (code : Code) (limit : Nat) (s : State σ) : Option (Transition σ) :=
  match code[s.place]? with
  | some i => i.perform literal code limit s
  | none => some (.done s.console (.ok none))

/-- A step enters a function, leaves one, or does neither. -/
theorem callers_of_step {literal : Value → Value} {code : Code} {limit : Nat} {s s' : State σ}
    (h : step literal code limit s = some (.more s')) :
    s'.callers = s.callers ∨ (∃ waiting, s'.callers = waiting :: s.callers) ∨ ∃ waiting, s.callers = waiting :: s'.callers := by
  have hassign : ∀ x r, s.assign x r = .more s' → s'.callers = s.callers := by
    intro x r hr
    cases r with
    | error e => cases hr
    | ok v =>
        cases hr
        exact s.callers_deliver _ _
  have hcall : ∀ destination site, s.call limit destination site = some (.more s') →
      s'.callers = s.callers ∨ ∃ waiting, s'.callers = waiting :: s.callers := by
    intro destination site hr
    unfold State.call at hr
    split at hr
    · split at hr
      · cases hr
      · split at hr
        · obtain ⟨args, -, hargs⟩ := Option.map_eq_some_iff.1 hr
          cases hargs
          exact .inr ⟨_, rfl⟩
        · cases hr
    · split at hr
      · rw [State.callBuiltin] at hr
        split at hr
        · cases hr
        · split at hr
          · cases hr
            exact .inl (State.callers_deliver _ _ _)
          · cases hr
      · cases hr
  unfold step at h
  split at h
  · rename_i i _
    cases i with
    | assign x rhs =>
        cases rhs with
        | call site => exact (hcall _ _ h).imp_right .inl
        | _ => exact .inl (hassign _ _ (Option.some.inj h))
    | call site => exact (hcall _ _ h).imp_right .inl
    | ret x =>
        simp only [Instruction.perform, State.ret] at h
        split at h
        · cases h
        · rename_i place caller callers hcallers
          split at h
          · split at h
            · split at h
              · cases h
                exact .inr (.inr ⟨_, by rw [State.callers_deliver, hcallers]⟩)
              · cases h
            · cases h
          · cases h
    | stop => cases h
    | _ => cases h; exact .inl rfl
  · cases h

end Scriptlet.Ir
