import Mathlib.Tactic
import Scriptlet.Proofs.Machine.Inversion

/-!
# Frames of callers

While a call is under way, nothing happens to the frames below it, whatever the operations are. An operation works on the
innermost frame; a call puts a frame on top and a return takes one off, and there are no other ways to the frames below.
-/

namespace Scriptlet.Machine

variable {σ : Type} [Streams σ]

/-! ## The states of a run -/

/-- The machine after its next step. A machine that has stopped stays as it is. -/
def advance (m : Machine σ) : Machine σ :=
  if m.status = .running then
    match m.step with
    | .more m' => m'
    | .done m' _ => m'
  else m

/-- The machine after a number of steps. -/
def after (m : Machine σ) : Nat → Machine σ
  | 0 => m
  | n + 1 => (m.after n).advance

theorem advance_of_more {m m' : Machine σ} (hrunning : m.status = .running) (h : m.step = .more m') : m.advance = m' := by
  rw [advance, if_pos hrunning, h]

theorem advance_of_done {m m' : Machine σ} {outcome : Outcome} (hrunning : m.status = .running)
    (h : m.step = .done m' outcome) : m.advance = m' := by
  rw [advance, if_pos hrunning, h]

theorem advance_of_stopped {m : Machine σ} (h : m.status ≠ .running) : m.advance = m := by
  rw [advance, if_neg h]

theorem after_succ (m : Machine σ) (n : Nat) : m.after (n + 1) = m.advance.after n := by
  induction n with
  | zero => rfl
  | succ n ih => rw [after, ih, after]

theorem after_of_stopped {m : Machine σ} (h : m.status ≠ .running) (n : Nat) : m.after n = m := by
  induction n with
  | zero => rfl
  | succ n ih => rw [after, ih, advance_of_stopped h]

/-- A run ends in the machine that is there after as many steps as it had fuel. -/
theorem after_of_run {fuel : Nat} {m m' : Machine σ} {outcome : Outcome} (h : run fuel m = some (m', outcome)) :
    m.after fuel = m' := by
  induction fuel generalizing m with
  | zero => cases h
  | succ fuel ih =>
      rw [run] at h
      split at h
      · rename_i hrunning
        rw [after_succ]
        split at h
        · rename_i m₁ hstep
          rw [advance_of_more hrunning hstep, ih h]
        · rename_i m₁ o hstep
          cases h
          rw [advance_of_done hrunning hstep, after_of_stopped (stopped_of_step_done hstep).2]
      · rename_i hstopped
        cases h
        exact after_of_stopped hstopped _

/-! ## Callers -/

theorem callers_of_step_done {m m' : Machine σ} {outcome : Outcome} (h : m.step = .done m' outcome) :
    m'.callers = m.callers := by
  obtain ⟨frame, console, status, -, rfl⟩ := exists_of_step_done h
  rfl

/-- What the next step does to the callers: it puts one on top, it takes the nearest one off by a return, or it leaves
them alone. -/
theorem callers_advance (m : Machine σ) :
    (∃ f, m.advance.callers = f :: m.callers) ∨ (∃ v caller, m.Leaves v caller m.advance)
      ∨ m.advance.callers = m.callers := by
  by_cases hrunning : m.status = .running
  · cases hstep : m.step with
    | done m' outcome =>
        rw [advance_of_done hrunning hstep]
        exact .inr (.inr (callers_of_step_done hstep))
    | more m' =>
        rw [advance_of_more hrunning hstep]
        rcases callers_of_step hstep with ⟨-, -, f, hcall⟩ | ⟨hret, -⟩ | ⟨-, -, hsame⟩
        · exact .inl ⟨f, hcall⟩
        · exact .inr (.inl (leaves_of_step hret hstep))
        · exact .inr (.inr hsame)
  · rw [advance_of_stopped hrunning]
    exact .inr (.inr rfl)

variable {m : Machine σ} {caller : Frame} {callers : List Frame}

/-- A step keeps frames below the innermost one, unless it is the return to the topmost of them. -/
theorem advance_isolated (h : caller :: callers <:+ m.callers) :
    caller :: callers <:+ m.advance.callers ∨ ∃ v, m.Leaves v caller m.advance ∧ m.advance.callers = callers := by
  rcases callers_advance m with ⟨f, hcall⟩ | ⟨v, top, hleaves⟩ | hsame
  · rw [hcall]
    exact .inl (h.trans (List.suffix_cons f m.callers))
  · rw [hleaves.callers, List.suffix_cons_iff] at h
    rcases h with h | h
    · cases h
      exact .inr ⟨v, hleaves, rfl⟩
    · exact .inl h
  · rw [hsame]
    exact .inl h

/-- Frames below the innermost one are kept for as long as there are more frames than they are. -/
theorem after_isolated (h : caller :: callers <:+ m.callers) {n : Nat}
    (hdepth : ∀ j ≤ n, callers.length + 1 < (m.after j).depth) : caller :: callers <:+ (m.after n).callers := by
  induction n with
  | zero => exact h
  | succ n ih =>
      rcases advance_isolated (ih fun j hj => hdepth j (Nat.le_succ_of_le hj)) with hkept | ⟨v, -, hback⟩
      · exact hkept
      · have hdeep := hdepth (n + 1) le_rfl
        rw [after, depth, hback] at hdeep
        exact absurd hdeep (Nat.lt_irrefl _)

theorem step_of_running {m : Machine σ} (h : m.advance.status = .running) : m.step = .more m.advance := by
  have hrunning : m.status = .running := by
    by_contra hstopped
    exact hstopped (advance_of_stopped hstopped ▸ h)
  cases hstep : m.step with
  | more m' => rw [advance_of_more hrunning hstep]
  | done m' outcome =>
      rw [advance_of_done hrunning hstep] at h
      exact absurd h (stopped_of_step_done hstep).2

/-- A call that succeeds in a machine, whatever its program and however it was reached. The new frame holds the address
to return to and the arguments. The frames of the callers stay as the call left them until the number of frames is back
to what it was, and it gets there by a return that puts its value on the caller's stack. -/
theorem call_isolated {m : Machine σ} (hop : m.ops[m.ip]? = some .call) (hcall : m.advance.status = .running) :
    ∃ args caller, m.Enters args caller m.advance ∧ ∀ n, (∀ j ≤ n, m.depth < (m.advance.after j).depth) →
      caller :: m.callers <:+ (m.advance.after n).callers
        ∧ ((m.advance.after (n + 1)).depth ≤ m.depth → ∃ v,
          (m.advance.after n).Leaves v caller (m.advance.after (n + 1))
            ∧ (m.advance.after (n + 1)).callers = m.callers) := by
  obtain ⟨args, caller, henters⟩ := enters_of_step hop (step_of_running hcall)
  have hstart : caller :: m.callers <:+ m.advance.callers := by
    rw [henters.callers]
  refine ⟨args, caller, henters, fun n hdepth => ?_⟩
  have hkept := after_isolated hstart hdepth
  refine ⟨hkept, fun hback => ?_⟩
  rcases advance_isolated hkept with hstill | hreturn
  · -- the frames that are still there are too many for the number to be back
    have hlength := hstill.length_le
    rw [after, depth, depth] at hback
    rw [List.length_cons] at hlength
    omega
  · exact hreturn

/-- About to call, with two arguments for one slot and a destination, a function that calls another one. -/
def nestedCall : Machine Console :=
  (ofOps [.push (.ofIndex 0), .push (.string "a"), .push (.ofIndex 0), .push (.string "b"), .push (.ofIndex 3),
    .push (.ofIndex 1), .push (.ofIndex 11), .push (.ofIndex 2), .call, .store, .halt,
    .push (.ofIndex 0), .push (.ofIndex 18), .push (.ofIndex 0), .call, .pop, .pushSlot 0, .ret,
    .push .nil, .ret] 3 (Console.new [] none none)).after 8

/-- The inner call comes after four steps, and the return from the outer one after nine. -/
theorem call_isolated_nested :
    nestedCall.ops[nestedCall.ip]? = some .call ∧ nestedCall.advance.status = .running
      ∧ ∃ args caller v, nestedCall.Enters args caller nestedCall.advance ∧ (nestedCall.advance.after 4).depth = 3
        ∧ caller :: nestedCall.callers <:+ (nestedCall.advance.after 4).callers
        ∧ (nestedCall.advance.after 8).Leaves v caller (nestedCall.advance.after 9)
        ∧ (nestedCall.advance.after 9).callers = nestedCall.callers := by
  have hop : nestedCall.ops[nestedCall.ip]? = some .call := by decide +kernel
  have hcall : nestedCall.advance.status = .running := by decide +kernel
  have hdepth : ∀ j ≤ 8, nestedCall.depth < (nestedCall.advance.after j).depth := by decide +kernel
  have hback : (nestedCall.advance.after 9).depth ≤ nestedCall.depth := by decide +kernel
  obtain ⟨args, caller, henters, hlater⟩ := call_isolated hop hcall
  obtain ⟨v, hleaves, hcallers⟩ := (hlater 8 hdepth).2 hback
  have hinner := (hlater 4 fun j hj => hdepth j (by omega)).1
  exact ⟨hop, hcall, args, caller, v, henters, by decide +kernel, hinner, hleaves, hcallers⟩

end Scriptlet.Machine
