import Mathlib.Tactic
import Scriptlet.Machine.Basic

/-!
# Steps of the stack machine

What each operation does to a machine whose stack holds the operands that it needs, and how steps make up a run.
-/

namespace Scriptlet

/-! ## Taking operands -/

namespace FrameM

variable {f : Frame} {rest : List Value}

theorem pop_cons {v : Value} : pop ⟨v :: rest, f.slots⟩ = .ok v ⟨rest, f.slots⟩ :=
  rfl

theorem lift_ok {α : Type} {a : α} : lift (.ok a) f = .ok a f :=
  rfl

theorem lift_error {α : Type} {e : RuntimeError} : lift (.error e : Except RuntimeError α) f = .error e f :=
  rfl

theorem takeIndex_cons {invalid : String → RuntimeError} {v : Value} {n : Nat} (hv : v.toIndex? = some n) :
    takeIndex invalid ⟨v :: rest, f.slots⟩ = .ok n ⟨rest, f.slots⟩ := by
  simp only [takeIndex, bind, EStateM.bind, pop_cons, hv]
  rfl

theorem takeAddress_cons {v : Value} {n size : Nat} (hv : v.toIndex? = some n) (hn : n < size) :
    takeAddress size ⟨v :: rest, f.slots⟩ = .ok n ⟨rest, f.slots⟩ := by
  simp only [takeAddress, bind, EStateM.bind, takeIndex_cons hv, if_pos hn]
  rfl

/-- The flag tells whether a destination lies below it. -/
theorem takeDestination_cons {flag : Value} {destination : Option Value}
    (hflag : isNoDestination flag = destination.isNone) :
    takeDestination ⟨flag :: (destination.toList ++ rest), f.slots⟩ = .ok destination ⟨rest, f.slots⟩ := by
  simp only [takeDestination, bind, EStateM.bind, pop_cons, hflag]
  cases destination <;> rfl

theorem putBack_eq (destination : Option Value) :
    putBack destination ⟨rest, f.slots⟩ = .ok () ⟨destination.toList ++ rest, f.slots⟩ := by
  cases destination <;> rfl

/-- The stack on which pairs of a slot and a value were pushed, the latest pair first. -/
def pairStack (pairs : List (Value × Value)) : List Value :=
  pairs.flatMap fun (slot, v) => [v, slot]

/-- Pairs are taken from the latest to the earliest and given in the order in which they were pushed. -/
theorem takePairs_pairStack (pairs taken : List (Value × Value)) :
    takePairs pairs.length taken ⟨pairStack pairs ++ rest, f.slots⟩
      = .ok (pairs.reverse ++ taken) ⟨rest, f.slots⟩ := by
  induction pairs generalizing taken with
  | nil => rfl
  | cons pair pairs ih =>
      obtain ⟨slot, v⟩ := pair
      simp only [List.length_cons, takePairs, pairStack, List.flatMap_cons, List.cons_append, List.nil_append, bind,
        EStateM.bind, pop_cons, List.reverse_cons, List.append_assoc]
      exact ih ((slot, v) :: taken)

end FrameM

/-- An operator on numbers fails on its left operand before it looks at the right one. -/
theorem BinaryOp.apply_eq_error {op : BinaryOp} {v w : Value} {e : RuntimeError} (hop : op.numeric = true)
    (hv : v.asNumber = .error e) : op.apply v w = .error e := by
  have hnumbers : ∀ g, v.onNumbers w g = .error e := by
    intro g
    simp only [Value.onNumbers, hv, bind, Except.bind]
  cases op <;> first | exact hnumbers _ | cases hop

namespace Machine

variable {σ : Type}

/-! ## Walks -/

/-- A machine gets to another one in a number of steps. All addresses that it comes to are `inside`, and it enters no
function. -/
inductive Walk [Streams σ] (inside : Nat → Prop) : Nat → Machine σ → Machine σ → Prop
  | refl (m : Machine σ) : Walk inside 0 m m
  | head {n : Nat} {m m₁ m₂ : Machine σ} : m.step = .more m₁ → inside m₁.ip → m₁.callers <:+ m.callers →
      Walk inside n m₁ m₂ → Walk inside (n + 1) m m₂

/-! ## Operations

Within an instruction only the address and the stack of the innermost frame change. -/

/-- A machine with another address and another stack in its innermost frame. -/
def moved (m : Machine σ) (ip : Nat) (stack : List Value) : Machine σ :=
  { m with ip, frame := ⟨stack, m.frame.slots⟩ }

theorem moved_self {m : Machine σ} {ip : Nat} {stack : List Value} (hip : m.ip = ip) (hstack : m.frame.stack = stack) :
    m.moved ip stack = m := by
  subst hip hstack; rfl

section Operations

variable [Streams σ] {m : Machine σ} {ip : Nat} {stack : List Value}

theorem step_perform {op : Op} {action : Action} {frame : Frame} (hop : m.ops[ip]? = some op)
    (hexec : (m.moved ip stack).exec op ⟨stack, m.frame.slots⟩ = .ok action frame) :
    (m.moved ip stack).step = (m.moved ip stack).perform frame action := by
  have hop' : (m.moved ip stack).ops[(m.moved ip stack).ip]? = some op := hop
  have hexec' : (m.moved ip stack).exec op (m.moved ip stack).frame = .ok action frame := hexec
  simp only [step, hop', hexec']

theorem step_next {op : Op} {frame : Frame} (hop : m.ops[ip]? = some op)
    (hexec : (m.moved ip stack).exec op ⟨stack, m.frame.slots⟩ = .ok .next frame) :
    (m.moved ip stack).step = .more { m with ip := ip + 1, frame } :=
  step_perform hop hexec

theorem step_error {op : Op} {e : RuntimeError} {frame : Frame} (hop : m.ops[ip]? = some op)
    (hexec : (m.moved ip stack).exec op ⟨stack, m.frame.slots⟩ = .error e frame) :
    (m.moved ip stack).step = stop { m with ip, frame } .faulted (.error e) := by
  have hop' : (m.moved ip stack).ops[(m.moved ip stack).ip]? = some op := hop
  have hexec' : (m.moved ip stack).exec op (m.moved ip stack).frame = .error e frame := hexec
  simp only [step, hop', hexec']
  rfl

theorem step_end (hop : m.ops[m.ip]? = none) : m.step = stop m .halted (.ok none) := by
  simp only [step, hop]

theorem step_push {v : Value} (hop : m.ops[ip]? = some (.push v)) :
    (m.moved ip stack).step = .more (m.moved (ip + 1) (v :: stack)) :=
  step_next hop rfl

theorem step_pushSlot {slot : Nat} (hop : m.ops[ip]? = some (.pushSlot slot)) :
    (m.moved ip stack).step = .more (m.moved (ip + 1) (m.frame.get slot :: stack)) :=
  step_next hop rfl

theorem step_pop {v : Value} (hop : m.ops[ip]? = some .pop) :
    (m.moved ip (v :: stack)).step = .more (m.moved (ip + 1) stack) :=
  step_next hop rfl

theorem step_store {v slot : Value} {n : Nat} (hop : m.ops[ip]? = some .store) (hslot : slot.toIndex? = some n) :
    (m.moved ip (v :: slot :: stack)).step
      = .more { m with ip := ip + 1, frame := (⟨stack, m.frame.slots⟩ : Frame).bind n v } := by
  apply step_next hop
  simp only [exec, bind, EStateM.bind, FrameM.pop_cons, FrameM.takeIndex_cons hslot]
  rfl

theorem step_jump {v : Value} {n : Nat} (hop : m.ops[ip]? = some .jump) (hv : v.toIndex? = some n)
    (hn : n < m.ops.size) : (m.moved ip (v :: stack)).step = .more (m.moved n stack) := by
  have hexec : (m.moved ip (v :: stack)).exec .jump ⟨v :: stack, m.frame.slots⟩
      = .ok (.jump n) ⟨stack, m.frame.slots⟩ := by
    simp only [moved, exec, bind, EStateM.bind, FrameM.takeAddress_cons hv hn]
    rfl
  exact step_perform hop hexec

theorem step_branch {v address : Value} {n : Nat} (hop : m.ops[ip]? = some .branch)
    (haddress : address.toIndex? = some n) (hn : n < m.ops.size) :
    (m.moved ip (v :: address :: stack)).step
      = .more (m.moved (if v.truthy then n else ip + 1) stack) := by
  have hexec : (m.moved ip (v :: address :: stack)).exec .branch ⟨v :: address :: stack, m.frame.slots⟩
      = .ok (if v.truthy then .jump n else .next) ⟨stack, m.frame.slots⟩ := by
    simp only [moved, exec, bind, EStateM.bind, FrameM.pop_cons, FrameM.takeAddress_cons haddress hn]
    rfl
  rw [step_perform hop hexec]
  cases v.truthy <;> rfl

theorem step_unary {op : UnaryOp} {v w : Value} (hop : m.ops[ip]? = some (.unary op)) (hw : op.apply v = .ok w) :
    (m.moved ip (v :: stack)).step = .more (m.moved (ip + 1) (w :: stack)) := by
  apply step_next hop
  simp only [exec, unary, bind, EStateM.bind, FrameM.pop_cons, hw, FrameM.lift_ok]
  rfl

theorem step_unary_error {op : UnaryOp} {v : Value} {e : RuntimeError} (hop : m.ops[ip]? = some (.unary op))
    (he : op.apply v = .error e) :
    (m.moved ip (v :: stack)).step = stop (m.moved ip stack) .faulted (.error e) := by
  apply step_error hop
  simp only [exec, unary, bind, EStateM.bind, FrameM.pop_cons, he, FrameM.lift_error]

theorem step_binary {op : BinaryOp} {v w x : Value} (hop : m.ops[ip]? = some (.binary op))
    (hx : op.apply v w = .ok x) :
    (m.moved ip (v :: w :: stack)).step = .more (m.moved (ip + 1) (x :: stack)) := by
  apply step_next hop
  simp only [exec, binary, bind, EStateM.bind, FrameM.pop_cons]
  cases hnumeric : op.numeric with
  | false =>
      simp only [Bool.false_eq_true, if_false, EStateM.bind, FrameM.pop_cons, hx, FrameM.lift_ok]
      rfl
  | true =>
      cases hv : v.asNumber with
      | ok y =>
          simp only [if_true, EStateM.bind, FrameM.pop_cons, hx, FrameM.lift_ok]
          rfl
      | error e =>
          rw [BinaryOp.apply_eq_error hnumeric hv] at hx
          cases hx

theorem step_binary_error {op : BinaryOp} {v w : Value} {e : RuntimeError} (hop : m.ops[ip]? = some (.binary op))
    (he : op.apply v w = .error e) :
    ∃ rest, (m.moved ip (v :: w :: stack)).step = stop (m.moved ip rest) .faulted (.error e) := by
  cases hnumeric : op.numeric with
  | false =>
      refine ⟨stack, step_error hop ?_⟩
      simp only [exec, binary, bind, EStateM.bind, FrameM.pop_cons, hnumeric, Bool.false_eq_true, if_false, he,
        FrameM.lift_error]
  | true =>
      cases hv : v.asNumber with
      | ok y =>
          refine ⟨stack, step_error hop ?_⟩
          simp only [exec, binary, bind, EStateM.bind, FrameM.pop_cons, hnumeric, if_true, hv, FrameM.lift_ok, he,
            FrameM.lift_error]
      | error d =>
          have hde : d = e := by
            rw [BinaryOp.apply_eq_error hnumeric hv] at he
            cases he; rfl
          subst hde
          refine ⟨w :: stack, step_error hop ?_⟩
          simp only [exec, binary, bind, EStateM.bind, FrameM.pop_cons, hnumeric, if_true, hv, FrameM.lift_error]

theorem step_overflow (hop : m.ops[ip]? = some .call) (hdepth : m.limit ≤ m.depth) :
    (m.moved ip stack).step = stop (m.moved ip stack) .faulted (.error (.stackOverflow m.limit)) := by
  apply step_error hop
  have hdepth' : (m.moved ip stack).limit ≤ (m.moved ip stack).depth := hdepth
  simp only [exec, call, bind, EStateM.bind, if_pos hdepth']
  rfl

/-- The stack below a call: the destination if there is one, then the parameters. -/
theorem step_call {argc address flag : Value} {destination : Option Value} {pairs : List (Value × Value)} {n : Nat}
    {callee : Frame} (hop : m.ops[ip]? = some .call) (hdepth : m.depth < m.limit)
    (hargc : argc.toIndex? = some pairs.length) (haddress : address.toIndex? = some n) (hn : n < m.ops.size)
    (hflag : FrameM.isNoDestination flag = destination.isNone)
    (hcallee : bindArguments (.ofStack [.ofIndex (ip + 1)]) pairs.reverse = .ok callee) :
    (m.moved ip (argc :: address :: flag :: (destination.toList ++ (FrameM.pairStack pairs ++ stack)))).step
      = .more { m with ip := n, frame := callee, callers := ⟨destination.toList ++ stack, m.frame.slots⟩ :: m.callers } := by
  have hexec : ∀ below, (m.moved ip below).exec .call
      ⟨argc :: address :: flag :: (destination.toList ++ (FrameM.pairStack pairs ++ stack)), m.frame.slots⟩
        = .ok (.enter n callee) ⟨destination.toList ++ stack, m.frame.slots⟩ := by
    intro below
    have hlimit : ¬ (m.moved ip below).limit ≤ (m.moved ip below).depth := Nat.not_le.2 hdepth
    have hsize : n < (m.moved ip below).ops.size := hn
    have hip : (m.moved ip below).ip = ip := rfl
    simp only [exec, call, bind, EStateM.bind, if_neg hlimit, pure, EStateM.pure, FrameM.takeIndex_cons hargc,
      FrameM.takeAddress_cons haddress hsize, FrameM.takeDestination_cons hflag, FrameM.takePairs_pairStack,
      List.append_nil, hip, hcallee, FrameM.lift_ok, FrameM.putBack_eq]
  exact step_perform hop (hexec _)

omit [Streams σ] in
theorem exec_callBuiltin {argc flag : Value} {name : String} {destination : Option Value}
    {pairs : List (Value × Value)} {f : Frame} (hargc : argc.toIndex? = some pairs.length)
    (hflag : FrameM.isNoDestination flag = destination.isNone) :
    m.exec .callBuiltin
        ⟨argc :: .string name :: flag :: (destination.toList ++ (FrameM.pairStack pairs ++ stack)), f.slots⟩
      = match Builtin.ofName? name with
        | some b => .ok (.invoke b (pairs.reverse.map (·.2)) destination) ⟨stack, f.slots⟩
        | none => .error (.unknownBuiltin name) ⟨stack, f.slots⟩ := by
  simp only [exec, callBuiltin, bind, EStateM.bind, FrameM.takeIndex_cons hargc, FrameM.pop_cons,
    FrameM.takeDestination_cons hflag, FrameM.takePairs_pairStack, List.append_nil]
  cases Builtin.ofName? name <;> rfl

section Builtins

variable {argc flag : Value} {name : String} {destination : Option Value} {pairs : List (Value × Value)}
  (hop : m.ops[ip]? = some .callBuiltin) (hargc : argc.toIndex? = some pairs.length)
  (hflag : FrameM.isNoDestination flag = destination.isNone)
include hop hargc hflag

theorem step_callBuiltin {b : Builtin} {v : Value} {console : σ} (hb : Builtin.ofName? name = some b)
    (hrun : b.run (pairs.reverse.map (·.2)) m.console = .ok v console) :
    (m.moved ip (argc :: .string name :: flag :: (destination.toList ++ (FrameM.pairStack pairs ++ stack)))).step
      = .more { m with ip := ip + 1, console, frame := ⟨v :: (destination.toList ++ stack), m.frame.slots⟩ } := by
  rw [step_perform hop ((exec_callBuiltin hargc hflag).trans (by rw [hb]))]
  simp only [perform, moved, hrun]
  cases destination <;> rfl

theorem step_callBuiltin_error {b : Builtin} {e : ConsoleError} {console : σ} (hb : Builtin.ofName? name = some b)
    (hrun : b.run (pairs.reverse.map (·.2)) m.console = .error e console) :
    (m.moved ip (argc :: .string name :: flag :: (destination.toList ++ (FrameM.pairStack pairs ++ stack)))).step
      = stop { m.moved ip stack with console } .faulted (.error (.console e)) := by
  rw [step_perform hop ((exec_callBuiltin hargc hflag).trans (by rw [hb]))]
  simp only [perform, moved, hrun]

theorem step_unknownBuiltin (hb : Builtin.ofName? name = none) :
    (m.moved ip (argc :: .string name :: flag :: (destination.toList ++ (FrameM.pairStack pairs ++ stack)))).step
      = stop (m.moved ip stack) .faulted (.error (.unknownBuiltin name)) :=
  step_error hop ((exec_callBuiltin hargc hflag).trans (by rw [hb]))

end Builtins

theorem step_ret_root {v : Value} (hop : m.ops[ip]? = some .ret) (hcallers : m.callers = []) :
    (m.moved ip (v :: stack)).step = stop (m.moved ip stack) .halted (.ok (some v)) := by
  have hexec : (m.moved ip (v :: stack)).exec .ret ⟨v :: stack, m.frame.slots⟩
      = .ok (.halt (some v)) ⟨stack, m.frame.slots⟩ := by
    simp only [exec, ret, bind, EStateM.bind, FrameM.pop_cons, moved, hcallers]
    rfl
  exact step_perform hop hexec

theorem step_ret {v address : Value} {n : Nat} {caller : Frame} {callers : List Frame}
    (hop : m.ops[ip]? = some .ret) (hcallers : m.callers = caller :: callers) (haddress : address.toIndex? = some n) :
    (m.moved ip (v :: address :: stack)).step = .more { m with ip := n, frame := caller.push v, callers } := by
  have hexec : (m.moved ip (v :: address :: stack)).exec .ret ⟨v :: address :: stack, m.frame.slots⟩
      = .ok (.leave n v caller callers) ⟨stack, m.frame.slots⟩ := by
    simp only [exec, ret, bind, EStateM.bind, FrameM.pop_cons, moved, hcallers, FrameM.takeIndex_cons haddress]
    rfl
  exact step_perform hop hexec

theorem step_halt (hop : m.ops[ip]? = some .halt) :
    (m.moved ip stack).step = stop (m.moved ip stack) .halted (.ok none) := by
  have hexec : (m.moved ip stack).exec .halt ⟨stack, m.frame.slots⟩ = .ok (.halt none) ⟨stack, m.frame.slots⟩ := rfl
  exact step_perform hop hexec

end Operations

/-! ## Runs -/

variable [Streams σ]

/-- A machine that goes on keeps its program and its limit and is running as it was. -/
theorem kept_of_step {m m' : Machine σ} (h : m.step = .more m') :
    m'.ops = m.ops ∧ m'.limit = m.limit ∧ m'.status = m.status := by
  unfold step at h
  split at h
  · cases h
  · split at h
    · rename_i action frame _
      cases action with
      | invoke b args destination =>
          simp only [perform] at h
          split at h
          · cases h; exact ⟨rfl, rfl, rfl⟩
          · cases h
      | halt result => cases h
      | next => cases h; exact ⟨rfl, rfl, rfl⟩
      | jump address => cases h; exact ⟨rfl, rfl, rfl⟩
      | enter address callee => cases h; exact ⟨rfl, rfl, rfl⟩
      | leave address v caller callers => cases h; exact ⟨rfl, rfl, rfl⟩
    · cases h

theorem Walk.status {inside : Nat → Prop} {n : Nat} {m m' : Machine σ} (h : Walk inside n m m') :
    m'.status = m.status := by
  induction h with
  | refl m => rfl
  | head hstep _ _ _ ih => rw [ih, (kept_of_step hstep).2.2]

theorem run_walk {inside : Nat → Prop} {n : Nat} {m m' : Machine σ} (h : Walk inside n m m')
    (hrunning : m.status = .running) (fuel : Nat) : run (n + fuel) m = run fuel m' := by
  induction h with
  | refl m => rw [Nat.zero_add]
  | @head n m m₁ m₂ hstep _ _ _ ih =>
      rw [Nat.add_right_comm, run, if_pos hrunning, hstep]
      exact ih ((kept_of_step hstep).2.2.trans hrunning)

theorem run_done {m m' : Machine σ} {outcome : Outcome} (hrunning : m.status = .running)
    (hstep : m.step = .done m' outcome) (fuel : Nat) : run (fuel + 1) m = some (m', outcome) := by
  rw [run, if_pos hrunning, hstep]

/-- More fuel does not change how a run ends. -/
theorem run_add {fuel : Nat} {m : Machine σ} {r : Machine σ × Outcome} (h : run fuel m = some r) (more : Nat) :
    run (fuel + more) m = some r := by
  induction fuel generalizing m with
  | zero => cases h
  | succ fuel ih =>
      rw [Nat.add_right_comm, run]
      rw [run] at h
      split at h
      · rename_i hrunning
        rw [if_pos hrunning]
        split at h
        · exact ih h
        · exact h
      · rename_i hstopped
        rw [if_neg hstopped, h]

end Machine

end Scriptlet
