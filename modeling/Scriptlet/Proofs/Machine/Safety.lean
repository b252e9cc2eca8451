import Mathlib.Tactic
import Scriptlet.Proofs.Machine.Steps

/-!
# Safe operations

What it means that operations never make a machine do what makes no sense: to take from an empty stack, to use as a slot,
an address or a count what is none, or to run past the last operation.
-/

namespace Scriptlet

/-! ## Errors -/

/-- Errors that a program can cause. All others are due to operations that make no sense. -/
def RuntimeError.isProgramError : RuntimeError → Bool
  | stackOverflow _ | notANumber _ | divisionByZero | unknownBuiltin _ | console _ => true
  | stackUnderflow | invalidSlot _ | invalidAddress _ | invalidOperand _ => false

/-- Errors about operands: one is no number, or the divisor is zero. -/
def RuntimeError.isOperandError : RuntimeError → Bool
  | notANumber _ | divisionByZero => true
  | _ => false

theorem RuntimeError.isProgramError_of_isOperandError {e : RuntimeError} (h : e.isOperandError = true) :
    e.isProgramError = true := by
  cases e <;> first | rfl | cases h

section Operators

variable {v w : Value} {e : RuntimeError}

theorem Value.asNumber_isOperandError (h : v.asNumber = .error e) : e.isOperandError = true := by
  rw [asNumber] at h
  split at h
  · cases h
  · cases h; rfl

theorem Value.onNumbers_isOperandError {f : Number → Number → Except RuntimeError Value}
    (hf : ∀ x y, f x y = .error e → e.isOperandError = true) (h : v.onNumbers w f = .error e) :
    e.isOperandError = true := by
  cases hv : v.asNumber with
  | error d =>
      rw [onNumbers, hv] at h
      cases h
      exact asNumber_isOperandError hv
  | ok x =>
      cases hw : w.asNumber with
      | error d =>
          rw [onNumbers, hv, hw] at h
          cases h
          exact asNumber_isOperandError hw
      | ok y =>
          rw [onNumbers, hv, hw] at h
          exact hf x y h

theorem BinaryOp.apply_isOperandError {op : BinaryOp} (h : op.apply v w = .error e) : e.isOperandError = true := by
  have hnumbers : ∀ g : Number → Number → Value, (v.onNumbers w fun x y => .ok (g x y)) = .error e →
      e.isOperandError = true := by
    intro g hg
    refine Value.onNumbers_isOperandError (fun x y hxy => ?_) hg
    cases hxy
  have hdivision : ∀ g : Number → Number → Value,
      (v.onNumbers w fun x y => if y == 0 then .error .divisionByZero else .ok (g x y)) = .error e →
      e.isOperandError = true := by
    intro g hg
    refine Value.onNumbers_isOperandError (fun x y hxy => ?_) hg
    split at hxy
    · cases hxy; rfl
    · cases hxy
  cases op with
  | or => cases h
  | and => cases h
  | equal => cases h
  | notEqual => cases h
  | add =>
      unfold apply at h
      dsimp only at h
      split at h
      · cases h
      · exact hnumbers _ h
  | div => exact hdivision _ h
  | rem => exact hdivision _ h
  | _ => exact hnumbers _ h

theorem UnaryOp.apply_isOperandError {op : UnaryOp} (h : op.apply v = .error e) : e.isOperandError = true := by
  have hnumber : ∀ g : Number → Value, (v.asNumber >>= fun x => .ok (g x)) = .error e → e.isOperandError = true := by
    intro g hg
    cases hv : v.asNumber with
    | error d =>
        rw [hv] at hg
        cases hg
        exact Value.asNumber_isOperandError hv
    | ok x =>
        rw [hv] at hg
        cases hg
  cases op with
  | plus => exact hnumber _ h
  | minus => exact hnumber _ h
  | not => cases h

end Operators

namespace Machine

variable {σ : Type}

/-! ## What operations lead to -/

/-- What may follow an operation. Only a call enters a function, and only a return leaves one. -/
inductive Follows (m : Machine σ) : Op → Action → Prop
  | enter {address : Nat} {callee : Frame} : callee.stack = [.ofIndex (m.ip + 1)] → Follows m .call (.enter address callee)
  | leave {address : Nat} {v : Value} {caller : Frame} {callers : List Frame} : m.callers = caller :: callers →
      Follows m .ret (.leave address v caller callers)
  | ret {v : Value} : m.callers = [] → Follows m .ret (.halt (some v))
  | halt : Follows m .halt (.halt none)
  | next {op : Op} : op ≠ .call → op ≠ .ret → Follows m op .next
  | jump {op : Op} {address : Nat} : op ≠ .call → op ≠ .ret → Follows m op (.jump address)
  | invoke {b : Builtin} {args : List Value} {destination : Option Value} :
      Follows m .callBuiltin (.invoke b args destination)

theorem bind_eq_ok {α β : Type} {x : FrameM α} {g : α → FrameM β} {f f' : Frame} {b : β}
    (h : (x >>= g) f = .ok b f') : ∃ a f₁, x f = .ok a f₁ ∧ g a f₁ = .ok b f' := by
  simp only [bind, EStateM.bind] at h
  split at h
  · exact ⟨_, _, ‹_›, h⟩
  · cases h

theorem stack_bindArguments {callee callee' : Frame} {args : List (Value × Value)}
    (h : bindArguments callee args = .ok callee') : callee'.stack = callee.stack := by
  induction args generalizing callee with
  | nil => cases h; rfl
  | cons arg args ih =>
      obtain ⟨slot, v⟩ := arg
      rw [bindArguments] at h
      split at h
      · rw [ih h, Frame.stack_bind]
      · cases h

theorem eq_ok_of_lift {α : Type} {r : Except RuntimeError α} {a : α} {f f' : Frame} (h : FrameM.lift r f = .ok a f') :
    r = .ok a := by
  cases r with
  | error e => cases h
  | ok b => cases h; rfl

theorem follows_of_exec {m : Machine σ} {op : Op} {f f' : Frame} {action : Action} (h : m.exec op f = .ok action f') :
    m.Follows op action := by
  cases op with
  | call =>
      rw [exec, call] at h
      by_cases hdepth : m.limit ≤ m.depth
      · rw [if_pos hdepth] at h
        cases h
      rw [if_neg hdepth] at h
      obtain ⟨argc, _, -, h⟩ := bind_eq_ok h
      obtain ⟨address, _, -, h⟩ := bind_eq_ok h
      obtain ⟨destination, _, -, h⟩ := bind_eq_ok h
      obtain ⟨args, _, -, h⟩ := bind_eq_ok h
      obtain ⟨callee, _, hcallee, h⟩ := bind_eq_ok h
      obtain ⟨_, _, -, h⟩ := bind_eq_ok h
      cases h
      exact .enter (stack_bindArguments (eq_ok_of_lift hcallee))
  | callBuiltin =>
      obtain ⟨argc, _, -, h⟩ := bind_eq_ok h
      obtain ⟨name, _, -, h⟩ := bind_eq_ok h
      cases name with
      | string name =>
          obtain ⟨destination, _, -, h⟩ := bind_eq_ok h
          obtain ⟨args, _, -, h⟩ := bind_eq_ok h
          cases hb : Builtin.ofName? name with
          | none =>
              rw [hb] at h
              cases h
          | some b =>
              rw [hb] at h
              cases h
              exact .invoke
      | _ => cases h
  | ret =>
      obtain ⟨v, _, -, h⟩ := bind_eq_ok h
      cases hcallers : m.callers with
      | nil =>
          rw [hcallers] at h
          cases h
          exact .ret hcallers
      | cons caller callers =>
          rw [hcallers] at h
          obtain ⟨address, _, -, h⟩ := bind_eq_ok h
          cases h
          exact .leave hcallers
  | halt => cases h; exact .halt
  | branch =>
      obtain ⟨v, _, -, h⟩ := bind_eq_ok h
      obtain ⟨address, _, -, h⟩ := bind_eq_ok h
      cases hv : v.truthy with
      | true =>
          rw [hv] at h
          cases h
          exact .jump (by simp) (by simp)
      | false =>
          rw [hv] at h
          cases h
          exact .next (by simp) (by simp)
  | jump =>
      obtain ⟨address, _, -, h⟩ := bind_eq_ok h
      cases h
      exact .jump (by simp) (by simp)
  | store =>
      obtain ⟨v, _, -, h⟩ := bind_eq_ok h
      obtain ⟨slot, _, -, h⟩ := bind_eq_ok h
      obtain ⟨_, _, -, h⟩ := bind_eq_ok h
      cases h
      exact .next (by simp) (by simp)
  | pushSlot slot =>
      obtain ⟨_, _, -, h⟩ := bind_eq_ok h
      obtain ⟨_, _, -, h⟩ := bind_eq_ok h
      cases h
      exact .next (by simp) (by simp)
  | _ =>
      obtain ⟨_, _, -, h⟩ := bind_eq_ok h
      cases h
      exact .next (by simp) (by simp)

variable [Streams σ]

/-- What a step that goes on does to the callers. -/
theorem callers_of_step {m m' : Machine σ} (h : m.step = .more m') :
    (m.ops[m.ip]? = some .call ∧ m'.frame.stack = [.ofIndex (m.ip + 1)] ∧ ∃ f, m'.callers = f :: m.callers)
      ∨ (m.ops[m.ip]? = some .ret ∧ ∃ f, m.callers = f :: m'.callers)
      ∨ (m.ops[m.ip]? ≠ some .call ∧ m.ops[m.ip]? ≠ some .ret ∧ m'.callers = m.callers) := by
  unfold step at h
  split at h
  · cases h
  · rename_i op hop
    split at h
    · rename_i action frame hexec
      have hfollows := follows_of_exec hexec
      cases hfollows with
      | enter hstack =>
          cases h
          exact .inl ⟨hop, hstack, frame, rfl⟩
      | leave hcallers =>
          cases h
          exact .inr (.inl ⟨hop, _, hcallers⟩)
      | ret hcallers => cases h
      | halt => cases h
      | next hcall hret =>
          cases h
          exact .inr (.inr ⟨by simpa [hop] using hcall, by simpa [hop] using hret, rfl⟩)
      | jump hcall hret =>
          cases h
          exact .inr (.inr ⟨by simpa [hop] using hcall, by simpa [hop] using hret, rfl⟩)
      | invoke =>
          simp only [perform] at h
          split at h
          · cases h
            exact .inr (.inr ⟨by simp [hop], by simp [hop], rfl⟩)
          · cases h
    · cases h

/-- A run that ends well ends at a halt or at a return from the root, or it has passed the last operation. -/
theorem op_of_step_done {m m' : Machine σ} {r : Option Value} (h : m.step = .done m' (.ok r)) :
    m.ops[m.ip]? = none ∨ (m.ops[m.ip]? = some .halt ∧ r = none)
      ∨ (m.ops[m.ip]? = some .ret ∧ m.callers = [] ∧ r.isSome) := by
  unfold step at h
  split at h
  · rename_i hop
    exact .inl hop
  · rename_i op hop
    split at h
    · rename_i action frame hexec
      have hfollows := follows_of_exec hexec
      cases hfollows with
      | ret hcallers =>
          cases h
          exact .inr (.inr ⟨hop, hcallers, rfl⟩)
      | halt =>
          cases h
          exact .inr (.inl ⟨hop, rfl⟩)
      | invoke =>
          simp only [perform] at h
          split at h <;> cases h
      | _ => cases h
    · cases h

/-- A step that ends a run changes the innermost frame and the console at most. -/
theorem exists_of_step_done {m m' : Machine σ} {outcome : Outcome} (h : m.step = .done m' outcome) :
    ∃ frame console status, status ≠ .running ∧ m' = { m with frame, console, status } := by
  unfold step at h
  split at h
  · cases h
    exact ⟨_, _, _, by simp, rfl⟩
  · split at h
    · rename_i action frame _
      cases action with
      | halt result =>
          cases h
          exact ⟨_, _, _, by simp, rfl⟩
      | invoke b args destination =>
          simp only [perform] at h
          split at h
          · cases h
          · cases h
            exact ⟨_, _, _, by simp, rfl⟩
      | _ => cases h
    · cases h
      exact ⟨_, _, _, by simp, rfl⟩

/-- A machine that stops stays where it is. -/
theorem stopped_of_step_done {m m' : Machine σ} {outcome : Outcome} (h : m.step = .done m' outcome) :
    m'.ip = m.ip ∧ m'.status ≠ .running := by
  obtain ⟨frame, console, status, hstopped, rfl⟩ := exists_of_step_done h
  exact ⟨rfl, hstopped⟩

/-! ## Runs -/

/-- The return addresses of the calls under way after the operation at the current address, the latest first. -/
def returnsAfter (m : Machine σ) (returns : List Nat) : List Nat :=
  match m.ops[m.ip]? with
  | some .call => (m.ip + 1) :: returns
  | some .ret => returns.tail
  | _ => returns

/-- The machines that a run comes to, with the return addresses of the calls under way. -/
inductive Reaches (start : Machine σ) : List Nat → Machine σ → Prop
  | start : Reaches start [] start
  | more {returns : List Nat} {m m' : Machine σ} : Reaches start returns m → m.status = .running → m.step = .more m' →
      Reaches start (m.returnsAfter returns) m'
  | done {returns : List Nat} {m m' : Machine σ} {outcome : Outcome} : Reaches start returns m → m.status = .running →
      m.step = .done m' outcome → Reaches start returns m'

/-- The next step goes on, or it ends the run at a halt, at a return from the root, or by an error of the program. -/
def Proper (m : Machine σ) : Prop :=
  match m.step with
  | .more _ => True
  | .done _ (.error e) => e.isProgramError = true
  | .done _ (.ok none) => m.ops[m.ip]? = some .halt
  | .done _ (.ok (some _)) => m.ops[m.ip]? = some .ret ∧ m.callers = []

/-- The innermost stack is empty in the root frame, and else it holds just the address to return to. -/
def AtRest (m : Machine σ) (returns : List Nat) : Prop :=
  m.callers.length = returns.length
    ∧ m.frame.stack = match returns with
      | [] => []
      | address :: _ => [.ofIndex address]

end Machine

/-- The addresses that jumps, branches and calls among operations go to. -/
def IsTarget (ops : List Op) (address : Nat) : Prop :=
  ∃ place v, ops[place]? = some (.push v) ∧ v.toIndex? = some address
    ∧ (ops[place + 1]? = some .jump ∨ ops[place + 2]? = some .branch ∨ ops[place + 2]? = some .call)

/-- Whatever the limit and the console, a run of the operations takes proper steps only and is at rest wherever a jump
or a call leads. -/
structure StackSafe (σ : Type) [Streams σ] (ops : List Op) : Prop where
  step : ∀ limit (console : σ) returns m, (Machine.ofOps ops limit console).Reaches returns m → m.status = .running →
    m.Proper
  rest : ∀ limit (console : σ) returns m, (Machine.ofOps ops limit console).Reaches returns m → IsTarget ops m.ip →
    m.AtRest returns

end Scriptlet
