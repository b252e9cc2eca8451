import Mathlib.Tactic
import Scriptlet.Proofs.Machine.Limit

/-!
# What a failed step leaves behind

A step that fails has taken operands from the innermost stack, and a builtin may have used the console before it failed.
All else is as it was: the address, the slots, and the frames of the callers.
-/

namespace Scriptlet.Machine

variable {σ : Type} {m m' : Machine σ} {e : RuntimeError}

/-! ## Operations -/

/-- Whatever fails in an operation, only operands are gone. -/
theorem remains_of_exec {op : Op} {f f' : Frame} (h : m.exec op f = .error e f') : f'.Remains f := by
  by_cases hfits : op = .call → m.depth < m.limit
  · exact (safelyFails_exec hfits f e f' h).2
  · -- a call that lacks a frame takes nothing
    obtain ⟨rfl, hdepth⟩ := Classical.not_imp.1 hfits
    rw [exec, call, if_pos (Nat.le_of_not_lt hdepth)] at h
    cases h
    exact .refl f

/-- Before a builtin runs, only operands were taken. -/
theorem remains_of_invoke {op : Op} {f f' : Frame} {b : Builtin} {args : List Value} {destination : Option Value}
    (h : m.exec op f = .ok (.invoke b args destination) f') : op = .callBuiltin ∧ f'.Remains f := by
  cases follows_of_exec h
  exact ⟨rfl, FrameM.Takes.ok takes_callBuiltin h⟩

/-! ## Steps -/

variable [Streams σ]

/-- A step fails in its operation, or in the builtin that the operation calls. -/
theorem exists_of_step_error (h : m.step = .done m' (.error e)) :
    ∃ op frame, m.ops[m.ip]? = some op ∧ frame.Remains m.frame
      ∧ (m' = { m with frame, status := .faulted }
        ∨ op = .callBuiltin ∧ ∃ console cause, e = .console cause ∧ m' = { m with frame, console, status := .faulted }) := by
  unfold step at h
  split at h
  · cases h
  · rename_i op hop
    split at h
    · rename_i action frame hexec
      cases action with
      | invoke b args destination =>
          obtain ⟨rfl, hframe⟩ := remains_of_invoke hexec
          simp only [perform] at h
          split at h
          · cases h
          · rename_i cause console _
            cases h
            exact ⟨_, frame, hop, hframe, .inr ⟨rfl, console, cause, rfl, rfl⟩⟩
      | _ => cases h
    · rename_i frame hexec
      cases h
      exact ⟨op, frame, hop, remains_of_exec hexec, .inl rfl⟩

/-- What a machine that failed has in common with the machine before the step. The console may have changed only if a
builtin was called, and if it is the console that failed. -/
structure FaultOf (m : Machine σ) (e : RuntimeError) (m' : Machine σ) : Prop where
  faulted : m'.status = .faulted
  program : m'.ops = m.ops ∧ m'.limit = m.limit
  op : ∃ op, m.ops[m.ip]? = some op
  ip : m'.ip = m.ip
  depth : m'.depth = m.depth
  callers : m'.callers = m.callers
  slots : m'.frame.slots = m.frame.slots
  stack : m'.frame.stack <:+ m.frame.stack
  console : m'.console = m.console ∨ m.ops[m.ip]? = some .callBuiltin ∧ ∃ cause, e = .console cause

theorem faultOf_of_step (h : m.step = .done m' (.error e)) : m.FaultOf e m' := by
  obtain ⟨op, frame, hop, hframe, rfl | ⟨rfl, console, cause, he, rfl⟩⟩ := exists_of_step_error h
  · exact ⟨rfl, ⟨rfl, rfl⟩, ⟨op, hop⟩, rfl, rfl, rfl, hframe.1, hframe.2, .inl rfl⟩
  · exact ⟨rfl, ⟨rfl, rfl⟩, ⟨_, hop⟩, rfl, rfl, rfl, hframe.1, hframe.2, .inr ⟨hop, cause, he⟩⟩

/-! ## Runs -/

theorem running_of_run_error {fuel : Nat} (h : run fuel m = some (m', .error e)) : m.status = .running := by
  by_contra hstopped
  cases fuel with
  | zero => cases h
  | succ fuel =>
      rw [run_of_stopped hstopped] at h
      cases h

/-- A step that fails, of any machine, leaves a machine that has faulted at the same operation. The frames of the callers
are as they were, and so are the slots of the innermost frame; its stack is what was at the bottom before. The console is
as it was unless a builtin was called. A run ends with such a step, or without an error. -/
theorem fault_takes_operands_only (m : Machine σ) :
    (∀ m' e, m.step = .done m' (.error e) → m.FaultOf e m'
        ∧ (m.status = .running → ∀ fuel, run (fuel + 1) m = some (m', .error e)))
      ∧ ∀ fuel m' e, run fuel m = some (m', .error e) → ∃ n, (∀ j < n, (m.after j).step = .more (m.after (j + 1)))
        ∧ (m.after n).step = .done m' (.error e) ∧ (m.after n).FaultOf e m' := by
  constructor
  · intro m' e h
    exact ⟨faultOf_of_step h, fun hrunning => run_done hrunning h⟩
  · intro fuel m' e h
    obtain ⟨n, -, hmore, hlast⟩ := exists_last_step (running_of_run_error h) h
    exact ⟨n, hmore, hlast, faultOf_of_step hlast⟩

/-- A function that binds a slot and prints two texts, and is called with a destination; then a call with arguments for a
slot and for what is none. -/
def faultyCalls : List Op :=
  [.push (.ofIndex 7), .push (.ofIndex 1), .push (.ofIndex 5), .push (.ofIndex 0), .call,
    .push (.ofIndex 0), .push (.string "a"), .store,
    .push .nil, .push (.string "b"), .push .nil, .push (.string "cd"), .push (.ofIndex 0), .push (.string "print"),
    .push (.ofIndex 2), .callBuiltin, .pop,
    .push (.string "below"), .push (.ofIndex 3), .push (.string "e"), .push .nil, .push (.string "f"), .push (.ofIndex 0),
    .push (.ofIndex 5), .push (.ofIndex 2), .call]

theorem step_of_run_one {outcome : Outcome} (hrunning : m.status = .running) (h : run 1 m = some (m', outcome)) :
    m.step = .done m' outcome := by
  rw [run, if_pos hrunning] at h
  cases hstep : m.step with
  | more m₁ => rw [hstep] at h; cases h
  | done m₁ outcome₁ => rw [hstep] at h; cases h; rfl

/-- With room for three bytes, the second line does not fit. With enough room, the second call fails on its second slot;
what lies below its operands is left. -/
theorem fault_takes_operands_only_nested :
    (∃ m m', (ofOps faultyCalls 9 (Console.new [] (some 3) none)).Reached m
        ∧ m.step = .done m' (.error (.console .outputFull)) ∧ m.FaultOf (.console .outputFull) m'
        ∧ m.depth = 2 ∧ m.frame.stack.length = 8 ∧ m'.frame.stack.length = 1 ∧ m'.console.output = Text.utf8 "b\nc")
      ∧ ∃ m m', (ofOps faultyCalls 9 (Console.new [] none none)).Reached m
        ∧ m.step = .done m' (.error (.invalidSlot "nil")) ∧ m.FaultOf (.invalidSlot "nil") m'
        ∧ m.depth = 2 ∧ m.frame.stack.length = 9 ∧ m'.frame.stack.length = 2 := by
  constructor
  · generalize hstart : ofOps faultyCalls 9 (Console.new [] (some 3) none) = start
    have hbefore : (start.after 15).status = .running ∧ (start.after 15).depth = 2
        ∧ (start.after 15).frame.stack.length = 8 := by
      rw [← hstart]
      decide +kernel
    have hends : (run 1 (start.after 15)).any (fun r => r.2 = .error (.console .outputFull)
        ∧ r.1.frame.stack.length = 1 ∧ r.1.console.output = Text.utf8 "b\nc") = true := by
      rw [← hstart]
      decide +kernel
    obtain ⟨⟨m', outcome⟩, hrun, hafter⟩ := (Option.any_eq_true _ _).1 hends
    obtain ⟨rfl, hstack, houtput⟩ : outcome = .error (.console .outputFull) ∧ m'.frame.stack.length = 1
        ∧ m'.console.output = Text.utf8 "b\nc" := by simpa using hafter
    have hstep := step_of_run_one hbefore.1 hrun
    exact ⟨_, m', reached_after start 15, hstep, ((fault_takes_operands_only _).1 _ _ hstep).1, hbefore.2.1, hbefore.2.2,
      hstack, houtput⟩
  · generalize hstart : ofOps faultyCalls 9 (Console.new [] none none) = start
    have hbefore : (start.after 25).status = .running ∧ (start.after 25).depth = 2
        ∧ (start.after 25).frame.stack.length = 9 := by
      rw [← hstart]
      decide +kernel
    have hends : (run 1 (start.after 25)).any (fun r => r.2 = .error (.invalidSlot "nil")
        ∧ r.1.frame.stack.length = 2) = true := by
      rw [← hstart]
      decide +kernel
    obtain ⟨⟨m', outcome⟩, hrun, hafter⟩ := (Option.any_eq_true _ _).1 hends
    obtain ⟨rfl, hstack⟩ : outcome = .error (.invalidSlot "nil") ∧ m'.frame.stack.length = 2 := by simpa using hafter
    have hstep := step_of_run_one hbefore.1 hrun
    exact ⟨_, m', reached_after start 25, hstep, ((fault_takes_operands_only _).1 _ _ hstep).1, hbefore.2.1, hbefore.2.2,
      hstack⟩

end Scriptlet.Machine
