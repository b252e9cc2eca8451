import Mathlib.Tactic
import Scriptlet.Proofs.Machine.Safety

/-!
# Operations that fail

An operation that fails has taken operands from the innermost frame and done nothing else to it. Only a call fails for
lack of frames, and it does so before it takes anything.
-/

namespace Scriptlet

/-! ## Taking operands -/

/-- The error that there are too many frames. -/
def RuntimeError.isOverflow : RuntimeError → Bool
  | stackOverflow _ => true
  | _ => false

theorem RuntimeError.not_isOverflow_of_isOperandError {e : RuntimeError} (h : e.isOperandError = true) :
    e.isOverflow = false := by
  cases e <;> first | rfl | cases h

/-- What a frame can be after operands were taken from another one. -/
def Frame.Remains (f' f : Frame) : Prop :=
  f'.slots = f.slots ∧ f'.stack <:+ f.stack

theorem Frame.Remains.refl (f : Frame) : f.Remains f :=
  ⟨rfl, List.suffix_rfl⟩

theorem Frame.Remains.trans {f f₁ f₂ : Frame} (h₂ : f₂.Remains f₁) (h₁ : f₁.Remains f) : f₂.Remains f :=
  ⟨h₂.1.trans h₁.1, h₂.2.trans h₁.2⟩

namespace FrameM

/-- If work on a frame fails, then not for lack of frames, and it has only taken operands. -/
def SafelyFails {α : Type} (x : FrameM α) : Prop :=
  ∀ f e f', x f = .error e f' → e.isOverflow = false ∧ f'.Remains f

/-- Work on a frame that only takes operands, whether it fails or not. -/
structure Takes {α : Type} (x : FrameM α) : Prop where
  ok : ∀ {f a f'}, x f = .ok a f' → f'.Remains f
  error : SafelyFails x

section Rules

variable {α β : Type} {x : FrameM α} {g : α → FrameM β}

theorem Takes.andThen (hx : Takes x) (hg : ∀ a, SafelyFails (g a)) : SafelyFails (x >>= g) := by
  intro f e f' h
  cases hxf : x f with
  | error d f₁ =>
      simp only [bind, EStateM.bind, hxf] at h
      cases h
      exact hx.error f e f' hxf
  | ok a f₁ =>
      simp only [bind, EStateM.bind, hxf] at h
      obtain ⟨he, hf'⟩ := hg a f₁ e f' h
      exact ⟨he, hf'.trans (hx.ok hxf)⟩

theorem Takes.bind (hx : Takes x) (hg : ∀ a, Takes (g a)) : Takes (x >>= g) := by
  refine ⟨?_, hx.andThen fun a => (hg a).error⟩
  intro f b f' h
  obtain ⟨a, f₁, hxf, hgf⟩ := Machine.bind_eq_ok h
  exact ((hg a).ok hgf).trans (hx.ok hxf)

theorem takes_pure (a : α) : Takes (pure a : FrameM α) := by
  constructor
  · intro f b f' h
    cases h
    exact .refl f
  · intro f e f' h
    cases h

theorem takes_throw {e : RuntimeError} (he : e.isOverflow = false) : Takes (throw e : FrameM α) := by
  constructor
  · intro f b f' h
    cases h
  · intro f d f' h
    cases h
    exact ⟨he, .refl f⟩

theorem takes_lift {r : Except RuntimeError α} (hr : ∀ e, r = .error e → e.isOverflow = false) : Takes (lift r) := by
  cases r with
  | ok a => exact takes_pure a
  | error e => exact takes_throw (hr e rfl)

theorem takes_pop : Takes pop := by
  constructor
  · rintro ⟨stack, slots⟩ v f' h
    cases stack with
    | nil => cases h
    | cons w rest =>
        cases h
        exact ⟨rfl, List.suffix_cons v rest⟩
  · rintro ⟨stack, slots⟩ e f' h
    cases stack with
    | nil =>
        cases h
        exact ⟨rfl, .refl _⟩
    | cons w rest => cases h

theorem takes_takeIndex {invalid : String → RuntimeError} (h : ∀ text, (invalid text).isOverflow = false) :
    Takes (takeIndex invalid) := by
  refine takes_pop.bind fun v => ?_
  split
  · exact takes_pure _
  · exact takes_throw (h _)

theorem takes_takeAddress (size : Nat) : Takes (takeAddress size) := by
  refine (takes_takeIndex fun _ => rfl).bind fun n => ?_
  split
  · exact takes_pure _
  · exact takes_throw rfl

theorem takes_takeDestination : Takes takeDestination := by
  refine takes_pop.bind fun flag => ?_
  split
  · exact takes_pure _
  · exact takes_pop.bind fun _ => takes_pure _

theorem takes_takePairs (count : Nat) (taken : List (Value × Value)) : Takes (takePairs count taken) := by
  induction count generalizing taken with
  | zero => exact takes_pure _
  | succ count ih => exact takes_pop.bind fun _ => takes_pop.bind fun _ => ih _

theorem safelyFails_modify (change : Frame → Frame) : SafelyFails (modify change : FrameM Unit) := by
  intro f e f' h
  cases h

theorem safelyFails_putBack (destination : Option Value) : SafelyFails (putBack destination) := by
  cases destination with
  | none => exact (takes_pure ()).error
  | some v => exact safelyFails_modify _

theorem SafelyFails.result (hx : SafelyFails x) (b : α → β) : SafelyFails (x >>= fun a => pure (b a)) := by
  intro f e f' h
  cases hxf : x f with
  | error d f₁ =>
      simp only [bind, EStateM.bind, hxf] at h
      cases h
      exact hx f e f' hxf
  | ok a f₁ =>
      simp only [bind, EStateM.bind, hxf] at h
      cases h

end Rules

end FrameM

/-! ## Operations -/

namespace Machine

open FrameM

variable {σ : Type}

theorem not_isOverflow_of_bindArguments {callee : Frame} {args : List (Value × Value)} {e : RuntimeError}
    (h : bindArguments callee args = .error e) : e.isOverflow = false := by
  induction args generalizing callee with
  | nil => cases h
  | cons arg args ih =>
      obtain ⟨slot, v⟩ := arg
      rw [bindArguments] at h
      split at h
      · exact ih h
      · cases h
        rfl

theorem takes_operator {α : Type} {r : Except RuntimeError α} (h : ∀ e, r = .error e → e.isOperandError = true) :
    Takes (lift r) :=
  takes_lift fun e he => RuntimeError.not_isOverflow_of_isOperandError (h e he)

theorem safelyFails_binary (op : BinaryOp) : SafelyFails (binary op) := by
  have hrest : ∀ v, SafelyFails (pop >>= fun w => lift (op.apply v w) >>= push) := fun v =>
    takes_pop.andThen fun w => (takes_operator fun _ => BinaryOp.apply_isOperandError).andThen fun _ =>
      safelyFails_modify _
  refine takes_pop.andThen fun v => ?_
  split
  · exact (takes_operator fun _ => Value.asNumber_isOperandError).andThen fun _ => hrest v
  · exact hrest v

theorem safelyFails_unary (op : UnaryOp) : SafelyFails (unary op) :=
  takes_pop.andThen fun _ => (takes_operator fun _ => UnaryOp.apply_isOperandError).andThen fun _ =>
    safelyFails_modify _

theorem safelyFails_call {m : Machine σ} (h : m.depth < m.limit) : SafelyFails m.call := by
  unfold call
  rw [if_neg (Nat.not_le.2 h)]
  refine (takes_takeIndex fun _ => rfl).andThen fun argc => (takes_takeAddress _).andThen fun address => ?_
  refine takes_takeDestination.andThen fun destination => (takes_takePairs _ _).andThen fun args => ?_
  refine (takes_lift fun _ => not_isOverflow_of_bindArguments).andThen fun callee => ?_
  exact (safelyFails_putBack destination).result _

theorem takes_callBuiltin : Takes callBuiltin := by
  refine (takes_takeIndex fun _ => rfl).bind fun argc => takes_pop.bind fun name => ?_
  split
  · refine takes_takeDestination.bind fun destination => (takes_takePairs _ _).bind fun args => ?_
    split
    · exact takes_pure _
    · exact takes_throw rfl
  · exact takes_throw rfl

theorem takes_ret (m : Machine σ) : Takes m.ret := by
  refine takes_pop.bind fun v => ?_
  split
  · exact takes_pure _
  · exact (takes_takeIndex fun _ => rfl).bind fun _ => takes_pure _

/-- An operation fails for lack of frames only if it is a call. -/
theorem safelyFails_exec {m : Machine σ} {op : Op} (h : op = .call → m.depth < m.limit) : SafelyFails (m.exec op) := by
  cases op with
  | binary op => exact (safelyFails_binary op).result _
  | unary op => exact (safelyFails_unary op).result _
  | pushSlot slot =>
      intro f e f' h
      cases h
  | push v => exact (safelyFails_modify _).result _
  | pop => exact (takes_pop.bind fun _ => takes_pure _).error
  | store =>
      refine takes_pop.andThen fun v => (takes_takeIndex fun _ => rfl).andThen fun slot => ?_
      exact (safelyFails_modify _).result _
  | jump => exact ((takes_takeAddress _).bind fun _ => takes_pure _).error
  | branch => exact (takes_pop.bind fun _ => (takes_takeAddress _).bind fun _ => takes_pure _).error
  | call => exact safelyFails_call (h rfl)
  | callBuiltin => exact takes_callBuiltin.error
  | ret => exact (takes_ret m).error
  | halt => exact (takes_pure _).error

/-! ## Steps -/

/-- The next operation is a call, but there are as many frames as there may be. -/
def Overflows (m : Machine σ) : Prop :=
  m.ops[m.ip]? = some .call ∧ m.limit ≤ m.depth

variable [Streams σ]

theorem step_of_overflows {m : Machine σ} (h : m.Overflows) :
    m.step = .done { m with status := .faulted } (.error (.stackOverflow m.limit)) := by
  have hstep := @step_overflow σ _ m m.ip m.frame.stack h.1 h.2
  rwa [moved_self rfl rfl] at hstep

/-- Nothing else fails for lack of frames. -/
theorem overflows_of_step {m m' : Machine σ} {e : RuntimeError} (h : m.step = .done m' (.error e))
    (he : e.isOverflow = true) : m.Overflows := by
  by_contra hfits
  unfold step at h
  split at h
  · cases h
  · rename_i op hop
    have hcall : op = .call → m.depth < m.limit := by
      rintro rfl
      exact Nat.lt_of_not_le fun hdepth => hfits ⟨hop, hdepth⟩
    split at h
    · rename_i action frame _
      cases action with
      | invoke b args destination =>
          simp only [perform] at h
          split at h
          · cases h
          · cases h
            cases he
      | _ => cases h
    · rename_i d frame hexec
      cases h
      rw [(safelyFails_exec hcall _ _ _ hexec).1] at he
      cases he

end Machine

end Scriptlet
