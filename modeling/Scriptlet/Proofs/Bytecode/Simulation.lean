import Mathlib.Tactic
import Scriptlet.Proofs.Bytecode.Layout
import Scriptlet.Proofs.Ir.Machine
import Scriptlet.Proofs.Machine.Steps
import Scriptlet.Proofs.Number.Nearest

/-!
# Operations do what their code says

A state of code corresponds to a state of the stack machine: slots hold what the names are bound to, and a stack holds
the address to return to and the pushed parameters. The operations of one instruction take corresponding states to
corresponding states, with the same effect on the console, and end a run in the same way.
-/

namespace Scriptlet.Bytecode

open Ir (Code Instruction CallSite Activation Parameter State Transition readOperand named?)
open Machine (Walk Step)

/-! ## Correspondence -/

variable {σ : Type}

section Correspondence

variable (literal : Value → Value) (code : Code)

/-- What stands on a stack for the name of a parameter. -/
def slotValue (slots : List String) : Option String → Value
  | some x => .ofIndex (slots.idxOf x)
  | none => literal noSlot

/-- What stands on a stack for parameters. -/
def parameterPairs (slots : List String) (pending : List Parameter) : List (Value × Value) :=
  pending.map fun (name, v) => (slotValue literal slots name, v)

/-- What an activation has in a frame: the stack holds its parameters between `top` and `below`. -/
structure Represents (slots : List String) (act : Activation) (top below : List Value) (f : Frame) : Prop where
  bound : ∀ x ∈ slots, f.get (slots.idxOf x) = act.env x
  unbound : ∀ x, x ∉ slots → act.env x = .nil
  named : ∀ p ∈ act.pending, ∀ x, p.1 = some x → x ∈ slots
  stack : f.stack = top ++ (FrameM.pairStack (parameterPairs literal slots act.pending) ++ below)

/-- The slot for the result of a call that waits. -/
def destination (slots : List String) (name : Option String) : Option Value :=
  name.map fun x => .ofIndex (slots.idxOf x)

/-- The address to return to, where a call waits: that of its last operation. -/
def returnStack : List (Nat × Activation) → List Value
  | [] => []
  | (place, _) :: _ => [.ofIndex (address code (place + 1) - 1)]

/-- Frames of activations that wait for a call to return. -/
inductive Suspended : List (Nat × Activation) → List Frame → Prop
  | nil : Suspended [] []
  | cons {place : Nat} {act : Activation} {callers : List (Nat × Activation)} {f : Frame} {frames : List Frame}
      {i : Instruction} {site : CallSite} : code[place]? = some i → i.callSite? = some site →
      Represents literal (slotNames code) act (destination (slotNames code) i.binds?).toList (returnStack code callers) f →
      Suspended callers frames → Suspended ((place, act) :: callers) (f :: frames)

/-- A state of code and a running machine at the first operation of its next instruction. -/
structure Corresponds (s : State σ) (m : Machine σ) : Prop where
  ops : m.ops = (operations literal code).toArray
  ip : m.ip = address code s.place
  frame : Represents literal (slotNames code) s.current [] (returnStack code s.callers) m.frame
  callers : Suspended literal code s.callers m.callers
  console : m.console = s.console
  running : m.status = .running

/-- A step of a machine has the effect of a step of code. -/
def Matches (limit : Nat) : Transition σ → Step σ → Prop
  | .more s, .more m => Corresponds literal code s m ∧ m.limit = limit
  | .done console outcome, .done m outcome' => m.console = console ∧ outcome' = outcome
  | _, _ => False

/-- All numbers in operations are small enough to be kept, targets are in the program, and literals that operations
look at stay what they are. -/
structure Faithful : Prop where
  size : address code code.length < 2 ^ 53
  target : ∀ i ∈ code, ∀ t, i.target? = some t → address code t < address code code.length
  index : ∀ n < 2 ^ 53, literal (.ofIndex n) = .ofIndex n
  nil : literal .nil = .nil
  callee : ∀ i ∈ code, ∀ site, i.callSite? = some site → site.target = none →
    literal (.string site.callee) = .string site.callee

end Correspondence

/-! ## Frames -/

section Frames

variable {literal : Value → Value} {slots : List String} {act : Activation} {top below : List Value} {f : Frame}

theorem represents_ofStack (literal : Value → Value) (slots : List String) (top below : List Value) :
    Represents literal slots ⟨.empty, []⟩ top below (.ofStack (top ++ below)) :=
  ⟨fun _ _ => Frame.get_ofStack _ _, fun _ _ => rfl, fun _ hp => absurd hp List.not_mem_nil, rfl⟩

/-- Only the part above the parameters changes. -/
theorem Represents.withTop (h : Represents literal slots act top below f) (top' : List Value) :
    Represents literal slots act top' below
      ⟨top' ++ (FrameM.pairStack (parameterPairs literal slots act.pending) ++ below), f.slots⟩ :=
  ⟨h.bound, h.unbound, h.named, rfl⟩

theorem Represents.push (h : Represents literal slots act top below f) (v : Value) :
    Represents literal slots act (v :: top) below (f.push v) :=
  ⟨h.bound, h.unbound, h.named, by rw [Frame.stack_push, h.stack, List.cons_append]⟩

theorem Represents.bind (h : Represents literal slots act top below f) {x : String} (hx : x ∈ slots) (v : Value) :
    Represents literal slots { act with env := act.env.set x v } top below (f.bind (slots.idxOf x) v) := by
  refine ⟨?_, ?_, h.named, h.stack⟩
  · intro y hy
    rw [Frame.get_bind]
    by_cases hxy : x = y
    · subst hxy
      rw [if_pos rfl]
      exact (Env.set_same _ _ _).symm
    · rw [if_neg fun e => hxy ((List.idxOf_inj hx).1 e), h.bound y hy]
      exact (Env.set_other _ _ (Ne.symm hxy)).symm
  · intro y hy
    have hyx : y ≠ x := fun e => hy (e ▸ hx)
    exact (Env.set_other _ _ hyx).trans (h.unbound y hy)

theorem Represents.param {x : Option String} {v : Value}
    (h : Represents literal slots act [v, slotValue literal slots x] below f) (hx : ∀ y, x = some y → y ∈ slots) :
    Represents literal slots { act with pending := (x, v) :: act.pending } [] below f := by
  refine ⟨h.bound, h.unbound, ?_, h.stack⟩
  intro p hp y hy
  cases hp with
  | head => exact hx y hy
  | tail _ hp => exact h.named p hp y hy

theorem Represents.dropParameters (h : Represents literal slots act top below f) (count : Nat) :
    Represents literal slots { act with pending := act.pending.drop count } top below
      ⟨top ++ (FrameM.pairStack (parameterPairs literal slots (act.pending.drop count)) ++ below), f.slots⟩ :=
  ⟨h.bound, h.unbound, fun p hp => h.named p (List.mem_of_mem_drop hp), rfl⟩

theorem pairStack_take_drop (pending : List Parameter) (count : Nat) (below : List Value) :
    FrameM.pairStack (parameterPairs literal slots pending) ++ below
      = FrameM.pairStack (parameterPairs literal slots (pending.take count))
        ++ (FrameM.pairStack (parameterPairs literal slots (pending.drop count)) ++ below) := by
  rw [← List.append_assoc, FrameM.pairStack, FrameM.pairStack, FrameM.pairStack, ← List.flatMap_append, parameterPairs,
    parameterPairs, parameterPairs, ← List.map_append, List.take_append_drop]

theorem eq_map_of_named? {pending : List Parameter} {args : List (String × Value)} (h : named? pending = some args) :
    pending = args.map fun (x, v) => (some x, v) := by
  induction pending generalizing args with
  | nil => cases h; rfl
  | cons p pending ih =>
      obtain ⟨name, v⟩ := p
      cases name with
      | none => cases h
      | some x =>
          rw [named?, Option.map_eq_some_iff] at h
          obtain ⟨rest, hrest, rfl⟩ := h
          rw [List.map_cons, ← ih hrest]

/-- Binding arguments in a frame is binding their names. -/
theorem bindArguments_eq {args : List (String × Value)} (hslots : slots.length < 2 ^ 53)
    (hargs : ∀ arg ∈ args, arg.1 ∈ slots) (h : Represents literal slots ⟨act.env, []⟩ [] below f) :
    ∃ f', Machine.bindArguments f (args.map fun (x, v) => (slotValue literal slots (some x), v)) = .ok f'
      ∧ Represents literal slots ⟨act.env.setAll args, []⟩ [] below f' := by
  induction args generalizing f act with
  | nil => exact ⟨f, rfl, h⟩
  | cons arg args ih =>
      obtain ⟨x, v⟩ := arg
      have hx : x ∈ slots := hargs (x, v) List.mem_cons_self
      have hindex : (slotValue literal slots (some x)).toIndex? = some (slots.idxOf x) :=
        Value.toIndex?_ofIndex ((List.idxOf_lt_length_iff.2 hx).trans hslots)
      rw [List.map_cons, Machine.bindArguments, hindex, Env.setAll]
      exact @ih ⟨act.env.set x v, []⟩ _ (fun arg harg => hargs arg (List.mem_cons_of_mem _ harg)) (h.bind hx v)

end Frames

/-! ## Single operations -/

section Steps

variable {literal : Value → Value} {code : Code} {m : Machine σ} {ip : Nat} {stack : List Value}

theorem fetch {place : Nat} {i : Instruction} {op : Op} (k : Nat) (hops : m.ops = (operations literal code).toArray)
    (hi : code[place]? = some i)
    (hop : (instructionOps (slotNames code) (address code) i)[k]?.map (Op.mapLiteral literal) = some op) :
    m.ops[address code place + k]? = some op := by
  have hk : k < width i := by
    obtain ⟨_, hget, _⟩ := Option.map_eq_some_iff.1 hop
    rw [← length_instructionOps (slotNames code) (address code) i]
    exact (List.getElem?_eq_some_iff.1 hget).1
  rw [hops, List.getElem?_toArray, getElem?_operations literal hi hk, hop]

variable [Streams σ]

theorem step_literal {v : Value} (hop : m.ops[ip]? = some ((Op.push v).mapLiteral literal)) :
    (m.moved ip stack).step = .more (m.moved (ip + 1) (literal v :: stack)) :=
  Machine.step_push hop

theorem Faithful.step_index (h : Faithful literal code) {n : Nat} (hn : n < 2 ^ 53)
    (hop : m.ops[ip]? = some ((Op.push (.ofIndex n)).mapLiteral literal)) :
    (m.moved ip stack).step = .more (m.moved (ip + 1) (.ofIndex n :: stack)) := by
  rw [step_literal hop, h.index n hn]

theorem Faithful.idxOf_lt (h : Faithful literal code) {x : String} (hx : x ∈ slotNames code) :
    (slotNames code).idxOf x < 2 ^ 53 :=
  (idxOf_slotNames_lt hx).trans h.size

theorem Faithful.step_slot (h : Faithful literal code) {x : String} (hx : x ∈ slotNames code)
    (hop : m.ops[ip]? = some ((slotOp (slotNames code) x).mapLiteral literal)) :
    (m.moved ip stack).step = .more (m.moved (ip + 1) (.ofIndex ((slotNames code).idxOf x) :: stack)) :=
  h.step_index (h.idxOf_lt hx) hop

/-- The operation of an operand pushes its value. -/
theorem Faithful.step_operand (h : Faithful literal code) {act : Activation} {top below : List Value} {x : String}
    (hrep : Represents literal (slotNames code) act top below m.frame)
    (hop : m.ops[ip]? = some ((operandOp (slotNames code) x).mapLiteral literal)) :
    (m.moved ip stack).step = .more (m.moved (ip + 1) (readOperand literal act.env x :: stack)) := by
  rw [operandOp] at hop
  rw [readOperand]
  cases hq : unquoted? x with
  | some text =>
      rw [hq] at hop
      exact Machine.step_push hop
  | none =>
      rw [hq] at hop
      dsimp only at hop ⊢
      by_cases hvar : isVariable x = true
      · rw [if_pos hvar] at hop ⊢
        by_cases hx : x ∈ slotNames code
        · rw [idxOf?_of_mem hx] at hop
          rw [← hrep.bound x hx]
          exact Machine.step_pushSlot hop
        · rw [List.idxOf?_eq_none_iff.2 hx] at hop
          rw [hrep.unbound x hx, ← h.nil]
          exact Machine.step_push hop
      · rw [if_neg hvar] at hop ⊢
        exact Machine.step_push hop

end Steps

/-! ## Instructions -/

variable [Streams σ]

/-- A machine goes on within instructions until its last step has the effect of a step of code. -/
def Simulates (literal : Value → Value) (code : Code) (limit : Nat) (m : Machine σ) (t : Transition σ) : Prop :=
  ∃ n m', Walk (Inside code) n m m' ∧ Matches literal code limit t m'.step

section Instructions

variable {literal : Value → Value} {code : Code} {limit : Nat} {s : State σ} {m : Machine σ} {t : Transition σ}

theorem Simulates.last (h : Matches literal code limit t m.step) : Simulates literal code limit m t :=
  ⟨0, m, .refl m, h⟩

theorem Simulates.head {m₁ : Machine σ} (hstep : m.step = .more m₁) (hip : Inside code m₁.ip)
    (hcallers : m₁.callers <:+ m.callers) (h : Simulates literal code limit m₁ t) : Simulates literal code limit m t := by
  obtain ⟨n, m', hwalk, hm'⟩ := h
  exact ⟨n + 1, m', .head hstep hip hcallers hwalk, hm'⟩

/-- Within an instruction nothing but the address and the stack changes. -/
theorem Simulates.moved {ip ip' : Nat} {stack stack' : List Value}
    (hstep : (m.moved ip stack).step = .more (m.moved ip' stack')) (hip : Inside code ip')
    (h : Simulates literal code limit (m.moved ip' stack') t) : Simulates literal code limit (m.moved ip stack) t :=
  .head hstep hip List.suffix_rfl h

omit [Streams σ] in
theorem Corresponds.moved_self (hm : Corresponds literal code s m) :
    m.moved (address code s.place) (FrameM.pairStack (parameterPairs literal (slotNames code) s.current.pending)
      ++ returnStack code s.callers) = m :=
  Machine.moved_self hm.ip hm.frame.stack

/-- The last operation of an instruction that gives a value to a name or drops it. -/
def deliveryOp : Option String → Op
  | some _ => .store
  | none => .pop

theorem matches_deliver (h : Faithful literal code) {v : Value} {name : Option String}
    (hname : ∀ x, name = some x → x ∈ slotNames code) (hops : m.ops = (operations literal code).toArray)
    (hop : m.ops[m.ip]? = some (deliveryOp name)) (hip : m.ip + 1 = address code (s.place + 1))
    (hframe : Represents literal (slotNames code) s.current (v :: (destination (slotNames code) name).toList)
      (returnStack code s.callers) m.frame)
    (hcallers : Suspended literal code s.callers m.callers) (hconsole : m.console = s.console)
    (hrunning : m.status = .running) : Matches literal code m.limit (.more (s.deliver name v)) m.step := by
  have hself := Machine.moved_self (Eq.refl m.ip) hframe.stack
  have hframe' := hframe.withTop []
  cases name with
  | none =>
      have hstep := (congrArg Machine.step hself).symm.trans (Machine.step_pop hop)
      rw [hstep]
      exact ⟨⟨hops, hip, hframe', hcallers, hconsole, hrunning⟩, rfl⟩
  | some x =>
      have hx := hname x rfl
      have hindex := Value.toIndex?_ofIndex (h.idxOf_lt hx)
      have hstep := (congrArg Machine.step hself).symm.trans (Machine.step_store hop hindex)
      rw [hstep]
      exact ⟨⟨hops, hip, hframe'.bind hx v, hcallers, hconsole, hrunning⟩, rfl⟩

theorem simulates_goto (h : Faithful literal code) (hm : Corresponds literal code s m) {t : Nat}
    (hi : code[s.place]? = some (.goto t)) :
    Simulates literal code m.limit m (.more { s with place := t }) := by
  have ht := h.target _ (List.mem_of_getElem? hi) t rfl
  rw [← hm.moved_self]
  refine .moved (h.step_index (ht.trans h.size) (fetch 0 hm.ops hi rfl)) (inside_add 1 hi (by simp [width]))
    (.last ?_)
  rw [Machine.step_jump (fetch 1 hm.ops hi rfl) (Value.toIndex?_ofIndex (ht.trans h.size))
    (by rw [hm.ops, List.size_toArray, length_operations]; exact ht)]
  exact ⟨⟨hm.ops, rfl, hm.frame.withTop [], hm.callers, hm.console, hm.running⟩, rfl⟩

theorem simulates_branch (h : Faithful literal code) (hm : Corresponds literal code s m) {x : String} {t : Nat}
    (hi : code[s.place]? = some (.branch x t)) :
    Simulates literal code m.limit m
      (.more { s with place := if (readOperand literal s.current.env x).truthy then t else s.place + 1 }) := by
  have ht := h.target _ (List.mem_of_getElem? hi) t rfl
  have hnext := address_succ hi
  rw [← hm.moved_self]
  refine .moved (h.step_index (ht.trans h.size) (fetch 0 hm.ops hi rfl)) (inside_add 1 hi (by simp [width])) ?_
  refine .moved (h.step_operand hm.frame (fetch 1 hm.ops hi rfl)) (inside_add 2 hi (by simp [width])) ?_
  apply Simulates.last
  rw [Machine.step_branch (fetch 2 hm.ops hi rfl) (Value.toIndex?_ofIndex (ht.trans h.size))
    (by rw [hm.ops, List.size_toArray, length_operations]; exact ht)]
  refine ⟨⟨hm.ops, ?_, hm.frame.withTop [], hm.callers, hm.console, hm.running⟩, rfl⟩
  cases (readOperand literal s.current.env x).truthy with
  | true => rfl
  | false => exact hnext.symm

/-- The value of an assignment lies above the slot that it goes to. -/
theorem matches_store (h : Faithful literal code) (hm : Corresponds literal code s m) {x : String} {rhs : Ir.Rhs}
    {k : Nat} {v : Value} (hi : code[s.place]? = some (.assign x rhs)) (hk : k + 1 = width (.assign x rhs))
    (hop : (instructionOps (slotNames code) (address code) (.assign x rhs))[k]?.map (Op.mapLiteral literal)
      = some .store) :
    Matches literal code m.limit (.more (s.deliver (some x) v))
      (m.moved (address code s.place + k) (v :: .ofIndex ((slotNames code).idxOf x)
        :: (FrameM.pairStack (parameterPairs literal (slotNames code) s.current.pending)
          ++ returnStack code s.callers))).step := by
  have hx : x ∈ slotNames code := mem_slotNames (List.mem_of_getElem? hi) rfl
  refine matches_deliver h ?_ hm.ops (fetch k hm.ops hi hop) ?_ (hm.frame.withTop _) hm.callers hm.console hm.running
  · rintro y ⟨⟩
    exact hx
  · rw [address_succ hi, ← hk]
    rfl

theorem simulates_single (h : Faithful literal code) (hm : Corresponds literal code s m) {x y : String}
    (hi : code[s.place]? = some (.assign x (.single y))) :
    Simulates literal code m.limit m (s.assign x (.ok (readOperand literal s.current.env y))) := by
  have hx : x ∈ slotNames code := mem_slotNames (List.mem_of_getElem? hi) rfl
  rw [← hm.moved_self]
  refine .moved (h.step_slot hx (fetch 0 hm.ops hi rfl)) (inside_add 1 hi (by simp [width])) ?_
  refine .moved (h.step_operand hm.frame (fetch 1 hm.ops hi rfl)) (inside_add 2 hi (by simp [width])) ?_
  exact .last (matches_store h hm hi rfl rfl)

theorem simulates_unary (h : Faithful literal code) (hm : Corresponds literal code s m) {x y : String} {op : UnaryOp}
    (hi : code[s.place]? = some (.assign x (.unary op y))) :
    Simulates literal code m.limit m (s.assign x (op.apply (readOperand literal s.current.env y))) := by
  have hx : x ∈ slotNames code := mem_slotNames (List.mem_of_getElem? hi) rfl
  rw [← hm.moved_self]
  refine .moved (h.step_slot hx (fetch 0 hm.ops hi rfl)) (inside_add 1 hi (by simp [width])) ?_
  refine .moved (h.step_operand hm.frame (fetch 1 hm.ops hi rfl)) (inside_add 2 hi (by simp [width])) ?_
  cases hv : op.apply (readOperand literal s.current.env y) with
  | ok v =>
      refine .moved (Machine.step_unary (fetch 2 hm.ops hi rfl) hv) (inside_add 3 hi (by simp [width])) ?_
      exact .last (matches_store h hm hi rfl rfl)
  | error e =>
      apply Simulates.last
      rw [Machine.step_unary_error (fetch 2 hm.ops hi rfl) hv]
      exact ⟨hm.console, rfl⟩

theorem simulates_binary (h : Faithful literal code) (hm : Corresponds literal code s m) {x y z : String}
    {op : BinaryOp} (hi : code[s.place]? = some (.assign x (.binary op y z))) :
    Simulates literal code m.limit m
      (s.assign x (op.apply (readOperand literal s.current.env y) (readOperand literal s.current.env z))) := by
  have hx : x ∈ slotNames code := mem_slotNames (List.mem_of_getElem? hi) rfl
  rw [← hm.moved_self]
  refine .moved (h.step_slot hx (fetch 0 hm.ops hi rfl)) (inside_add 1 hi (by simp [width])) ?_
  refine .moved (h.step_operand hm.frame (fetch 1 hm.ops hi rfl)) (inside_add 2 hi (by simp [width])) ?_
  refine .moved (h.step_operand hm.frame (fetch 2 hm.ops hi rfl)) (inside_add 3 hi (by simp [width])) ?_
  cases hv : op.apply (readOperand literal s.current.env y) (readOperand literal s.current.env z) with
  | ok v =>
      refine .moved (Machine.step_binary (fetch 3 hm.ops hi rfl) hv) (inside_add 4 hi (by simp [width])) ?_
      exact .last (matches_store h hm hi rfl rfl)
  | error e =>
      apply Simulates.last
      obtain ⟨rest, hstep⟩ := Machine.step_binary_error (fetch 3 hm.ops hi rfl) hv
      rw [hstep]
      exact ⟨hm.console, rfl⟩

theorem simulates_param (h : Faithful literal code) (hm : Corresponds literal code s m) {x : String}
    {name : Option String} (hi : code[s.place]? = some (.param x name)) :
    Simulates literal code m.limit m (.more (s.push (name, readOperand literal s.current.env x))) := by
  have hname : ∀ y, name = some y → y ∈ slotNames code := by
    rintro y rfl
    exact mem_slotNames (List.mem_of_getElem? hi) rfl
  have hnext := address_succ hi
  have hfirst : ∀ stack, (m.moved (address code s.place) stack).step
      = .more (m.moved (address code s.place + 1) (slotValue literal (slotNames code) name :: stack)) := by
    intro stack
    cases name with
    | none => exact Machine.step_push (fetch 0 hm.ops hi rfl)
    | some y => exact h.step_slot (hname y rfl) (fetch 0 hm.ops hi rfl)
  have hsecond : ∀ stack, (m.moved (address code s.place + 1) stack).step
      = .more (m.moved (address code s.place + 2) (readOperand literal s.current.env x :: stack)) := by
    intro stack
    cases name with
    | none => exact h.step_operand hm.frame (fetch 1 hm.ops hi rfl)
    | some y => exact h.step_operand hm.frame (fetch 1 hm.ops hi rfl)
  rw [← hm.moved_self]
  refine .moved (hfirst _) (inside_add 1 hi (by simp [width])) (.last ?_)
  rw [hsecond]
  exact ⟨⟨hm.ops, hnext.symm, (hm.frame.withTop _).param hname, hm.callers, hm.console, hm.running⟩, rfl⟩

theorem simulates_stop (hm : Corresponds literal code s m) (hi : code[s.place]? = some .stop) :
    Simulates literal code m.limit m (.done s.console (.ok none)) := by
  have hop : m.ops[address code s.place]? = some .halt := fetch 0 hm.ops hi rfl
  apply Simulates.last
  rw [← hm.moved_self, Machine.step_halt hop]
  exact ⟨hm.console, rfl⟩

end Instructions

/-! ## Calls and returns -/

/-- A call starts with the slot for its result, if it has one, and ends with the delivery of the result. -/
theorem instructionOps_call {slots : List String} {address : Nat → Nat} {i : Instruction} {site : CallSite}
    (hsite : i.callSite? = some site) :
    instructionOps slots address i = i.binds?.toList.map (slotOp slots)
      ++ .push (.ofIndex i.binds?.toList.length) :: (callOps address site ++ [deliveryOp i.binds?]) := by
  cases i with
  | assign x rhs =>
      cases rhs with
      | call site' => cases hsite; rfl
      | _ => cases hsite
  | call site' => cases hsite; rfl
  | _ => cases hsite

theorem width_call {i : Instruction} {site : CallSite} (hsite : i.callSite? = some site) :
    width i = i.binds?.toList.length + 5 := by
  cases i with
  | assign x rhs =>
      cases rhs with
      | call site' => rfl
      | _ => cases hsite
  | call site' => rfl
  | _ => cases hsite

theorem Suspended.length_eq {literal : Value → Value} {code : Code} {callers : List (Nat × Activation)}
    {frames : List Frame} (h : Suspended literal code callers frames) : callers.length = frames.length := by
  induction h with
  | nil => rfl
  | cons _ _ _ _ ih => rw [List.length_cons, List.length_cons, ih]

theorem isNoDestination_flag (slots : List String) (name : Option String) :
    FrameM.isNoDestination (.ofIndex name.toList.length) = (destination slots name).isNone := by
  cases name with
  | none => exact (by decide +kernel : FrameM.isNoDestination (.ofIndex 0) = true)
  | some x => exact (by decide +kernel : FrameM.isNoDestination (.ofIndex 1) = false)

section Calls

variable {literal : Value → Value} {code : Code} {s : State σ} {m : Machine σ} {i : Instruction} {site : CallSite}

omit [Streams σ] in
theorem fetch_call {place : Nat} {op : Op} (k : Nat) (hops : m.ops = (operations literal code).toArray)
    (hi : code[place]? = some i) (hsite : i.callSite? = some site)
    (hop : (.push (.ofIndex i.binds?.toList.length)
      :: (callOps (address code) site ++ [deliveryOp i.binds?]))[k]?.map (Op.mapLiteral literal) = some op) :
    m.ops[address code place + i.binds?.toList.length + k]? = some op := by
  rw [Nat.add_assoc]
  apply fetch _ hops hi
  rw [instructionOps_call hsite, List.getElem?_append_right (by simp), List.length_map, Nat.add_sub_cancel_left, hop]

theorem inside_call {place : Nat} (k : Nat) (hi : code[place]? = some i) (hsite : i.callSite? = some site)
    (hk : 0 < k ∧ k < 5) : Inside code (address code place + i.binds?.toList.length + k) := by
  rw [Nat.add_assoc]
  apply inside_add _ hi
  rw [width_call hsite]
  omega

omit [Streams σ] in
theorem fetch_delivery {place : Nat} (hops : m.ops = (operations literal code).toArray)
    (hi : code[place]? = some i) (hsite : i.callSite? = some site) :
    m.ops[address code place + i.binds?.toList.length + 4]? = some (deliveryOp i.binds?) := by
  apply fetch_call 4 hops hi hsite
  have hdelivery : (deliveryOp i.binds?).mapLiteral literal = deliveryOp i.binds? := by
    cases i.binds? <;> rfl
  rw [callOps]
  cases site.target <;> exact congrArg some hdelivery

theorem address_call_succ {place : Nat} (hi : code[place]? = some i) (hsite : i.callSite? = some site) :
    address code (place + 1) = address code place + i.binds?.toList.length + 5 := by
  rw [address_succ hi, width_call hsite, Nat.add_assoc]

/-- What a call pushes first: the slot for its result, if it has one, and the flag that tells so. -/
theorem simulates_call_head (h : Faithful literal code) (hm : Corresponds literal code s m)
    (hi : code[s.place]? = some i) (hsite : i.callSite? = some site) {t : Transition σ}
    (hrest : Simulates literal code m.limit
      (m.moved (address code s.place + i.binds?.toList.length + 1) (.ofIndex i.binds?.toList.length
        :: ((destination (slotNames code) i.binds?).toList
          ++ (FrameM.pairStack (parameterPairs literal (slotNames code) s.current.pending)
            ++ returnStack code s.callers)))) t) :
    Simulates literal code m.limit m t := by
  have hflag := fetch_call 0 hm.ops hi hsite rfl
  have hin := inside_call 1 hi hsite (by omega)
  have hslot : ∀ x, i.binds? = some x → m.ops[address code s.place]?
      = some ((slotOp (slotNames code) x).mapLiteral literal) := by
    intro x hx
    apply fetch 0 hm.ops hi
    rw [instructionOps_call hsite, hx]
    rfl
  rw [← hm.moved_self]
  cases hname : i.binds? with
  | none =>
      rw [hname] at hrest hflag hin
      exact .moved (h.step_index (Nat.two_pow_pos 53) hflag) hin hrest
  | some x =>
      rw [hname] at hrest hflag hin
      have hx : x ∈ slotNames code := mem_slotNames (List.mem_of_getElem? hi) hname
      refine .moved (h.step_slot hx (hslot x hname)) (inside_add 1 hi ?_) ?_
      · rw [width_call hsite]
        omega
      · exact .moved (h.step_index (Nat.one_lt_two_pow (by decide)) hflag) hin hrest

theorem simulates_overflow (h : Faithful literal code) (hm : Corresponds literal code s m)
    (hi : code[s.place]? = some i) (hsite : i.callSite? = some site) {entry : Nat} (hentry : site.target = some entry)
    (hdepth : m.limit ≤ s.callers.length + 1) :
    Simulates literal code m.limit m (.done s.console (.error (.stackOverflow m.limit))) := by
  have hops : callOps (address code) site
      = [.push (.ofIndex (address code entry)), .push (.ofIndex site.argc), .call] := by
    rw [callOps, hentry]
  have hdepth' : m.limit ≤ m.depth := by
    rw [Machine.depth, ← hm.callers.length_eq]
    exact hdepth
  apply simulates_call_head h hm hi hsite
  -- The limit is looked at first, so it does not matter here which number stands for `site.argc`.
  refine .moved (step_literal (fetch_call 1 hm.ops hi hsite (by rw [hops]; rfl))) (inside_call 2 hi hsite (by omega)) ?_
  refine .moved (step_literal (fetch_call 2 hm.ops hi hsite (by rw [hops]; rfl))) (inside_call 3 hi hsite (by omega)) ?_
  apply Simulates.last
  rw [Machine.step_overflow (fetch_call 3 hm.ops hi hsite (by rw [hops]; rfl)) hdepth']
  exact ⟨hm.console, rfl⟩

omit [Streams σ] in
/-- The parameters of a call come as pairs of a slot and a value. -/
theorem parameterPairs_reverse {args : List (String × Value)} {slots : List String}
    (hargs : named? (s.parameters site.argc) = some args) :
    (parameterPairs literal slots (s.current.pending.take site.argc)).reverse
      = args.map fun (x, v) => (slotValue literal slots (some x), v) := by
  have hparams : (s.current.pending.take site.argc).reverse = args.map fun (x, v) => (some x, v) :=
    eq_map_of_named? hargs
  rw [parameterPairs, ← List.map_reverse, hparams, List.map_map]
  rfl

theorem simulates_enter (h : Faithful literal code) (hm : Corresponds literal code s m)
    (hi : code[s.place]? = some i) (hsite : i.callSite? = some site) {entry : Nat} (hentry : site.target = some entry)
    (hdepth : s.callers.length + 1 < m.limit) (hargc : site.argc ≤ s.current.pending.length)
    (hpending : s.current.pending.length < 2 ^ 53) {args : List (String × Value)}
    (hargs : named? (s.parameters site.argc) = some args) :
    Simulates literal code m.limit m (.more (s.enter entry site.argc args)) := by
  have hops : callOps (address code) site
      = [.push (.ofIndex (address code entry)), .push (.ofIndex site.argc), .call] := by
    rw [callOps, hentry]
  have hdepth' : m.depth < m.limit := by
    rw [Machine.depth, ← hm.callers.length_eq]
    exact hdepth
  have ht : address code entry < address code code.length := by
    apply h.target i (List.mem_of_getElem? hi)
    rw [Ir.target?_of_callSite? hsite, hentry]
  have hsize : address code entry < m.ops.size := by
    rw [hm.ops, List.size_toArray, length_operations]
    exact ht
  have hcount : (parameterPairs literal (slotNames code) (s.current.pending.take site.argc)).length = site.argc := by
    rw [parameterPairs, List.length_map, List.length_take, Nat.min_eq_left hargc]
  have hreturn : address code s.place + i.binds?.toList.length + 3 + 1 = address code (s.place + 1) - 1 := by
    rw [address_call_succ hi hsite]
    omega
  have hmem : ∀ arg ∈ args, arg.1 ∈ slotNames code := by
    intro arg harg
    have hparam : (some arg.1, arg.2) ∈ s.parameters site.argc := by
      rw [eq_map_of_named? hargs]
      exact List.mem_map.2 ⟨arg, harg, rfl⟩
    exact hm.frame.named _ (List.mem_of_mem_take (List.mem_reverse.1 hparam)) _ rfl
  obtain ⟨callee, hcallee, hframe⟩ := @bindArguments_eq literal (slotNames code) ⟨.empty, []⟩
    (returnStack code ((s.place, (s.dropParameters site.argc).current) :: s.callers))
    (.ofStack [.ofIndex (address code (s.place + 1) - 1)]) args
    (Nat.lt_of_le_of_lt (length_slotNames_le code) h.size) hmem
    (represents_ofStack _ _ [] _)
  apply simulates_call_head h hm hi hsite
  refine .moved (h.step_index (ht.trans h.size) (fetch_call 1 hm.ops hi hsite (by rw [hops]; rfl)))
    (inside_call 2 hi hsite (by omega)) ?_
  refine .moved (h.step_index (Nat.lt_of_le_of_lt hargc hpending) (fetch_call 2 hm.ops hi hsite (by rw [hops]; rfl)))
    (inside_call 3 hi hsite (by omega)) ?_
  apply Simulates.last
  rw [pairStack_take_drop _ site.argc]
  rw [Machine.step_call (fetch_call 3 hm.ops hi hsite (by rw [hops]; rfl)) hdepth'
    ((Value.toIndex?_ofIndex (Nat.lt_of_le_of_lt hargc hpending)).trans (congrArg some hcount.symm))
    (Value.toIndex?_ofIndex (ht.trans h.size)) hsize (isNoDestination_flag (slotNames code) i.binds?)
    (by rw [parameterPairs_reverse hargs, hreturn]; exact hcallee)]
  refine ⟨⟨hm.ops, rfl, hframe, ?_, hm.console, hm.running⟩, rfl⟩
  exact .cons hi hsite ((hm.frame.dropParameters site.argc).withTop _) hm.callers

theorem simulates_callBuiltin (h : Faithful literal code) (hm : Corresponds literal code s m)
    (hi : code[s.place]? = some i) (hsite : i.callSite? = some site) (htarget : site.target = none)
    (hargc : site.argc ≤ s.current.pending.length) (hpending : s.current.pending.length < 2 ^ 53) :
    Simulates literal code m.limit m (s.callBuiltin i.binds? site) := by
  have hops : callOps (address code) site = [.push (.string site.callee), .push (.ofIndex site.argc), .callBuiltin] := by
    rw [callOps, htarget]
  have hcount : (parameterPairs literal (slotNames code) (s.current.pending.take site.argc)).length = site.argc := by
    rw [parameterPairs, List.length_map, List.length_take, Nat.min_eq_left hargc]
  have hargs : (parameterPairs literal (slotNames code) (s.current.pending.take site.argc)).reverse.map (·.2)
      = (s.parameters site.argc).map (·.2) := by
    rw [parameterPairs, State.parameters, List.map_reverse, List.map_map, ← List.map_reverse]
    rfl
  have hindex := (Value.toIndex?_ofIndex (Nat.lt_of_le_of_lt hargc hpending)).trans (congrArg some hcount.symm)
  have hflag := isNoDestination_flag (slotNames code) i.binds?
  have hop : m.ops[address code s.place + i.binds?.toList.length + 3]? = some .callBuiltin :=
    fetch_call 3 hm.ops hi hsite (by rw [hops]; rfl)
  apply simulates_call_head h hm hi hsite
  refine .moved (step_literal (fetch_call 1 hm.ops hi hsite (by rw [hops]; rfl))) (inside_call 2 hi hsite (by omega)) ?_
  refine .moved (h.step_index (Nat.lt_of_le_of_lt hargc hpending) (fetch_call 2 hm.ops hi hsite (by rw [hops]; rfl)))
    (inside_call 3 hi hsite (by omega)) ?_
  rw [h.callee i (List.mem_of_getElem? hi) site hsite htarget, pairStack_take_drop _ site.argc, State.callBuiltin]
  cases hb : Builtin.ofName? site.callee with
  | none =>
      apply Simulates.last
      rw [Machine.step_unknownBuiltin hop hindex hflag hb]
      exact ⟨hm.console, rfl⟩
  | some b =>
      dsimp only
      rw [← hargs, ← hm.console]
      cases hrun : b.run ((parameterPairs literal (slotNames code)
          (s.current.pending.take site.argc)).reverse.map (·.2)) m.console with
      | error e console =>
          apply Simulates.last
          rw [Machine.step_callBuiltin_error hop hindex hflag hb hrun]
          exact ⟨rfl, rfl⟩
      | ok v console =>
          refine .head (Machine.step_callBuiltin hop hindex hflag hb hrun) (inside_call 4 hi hsite (by omega)) ⟨[], rfl⟩ ?_
          apply Simulates.last
          refine matches_deliver h (fun x hx => mem_slotNames (List.mem_of_getElem? hi) hx) hm.ops
            (fetch_delivery hm.ops hi hsite) ?_ ((hm.frame.dropParameters site.argc).withTop _) hm.callers rfl hm.running
          exact (address_call_succ hi hsite).symm

theorem simulates_ret_root (h : Faithful literal code) (hm : Corresponds literal code s m) {x : String}
    (hi : code[s.place]? = some (.ret x)) (hcallers : s.callers = []) :
    Simulates literal code m.limit m (.done s.console (.ok (some (readOperand literal s.current.env x)))) := by
  have hframes : m.callers = [] := by
    rw [← List.length_eq_zero_iff, ← hm.callers.length_eq, hcallers, List.length_nil]
  rw [← hm.moved_self]
  refine .moved (h.step_operand hm.frame (fetch 0 hm.ops hi rfl)) (inside_add 1 hi (by simp [width])) (.last ?_)
  rw [Machine.step_ret_root (fetch 1 hm.ops hi rfl) hframes]
  exact ⟨hm.console, rfl⟩

/-- A return goes on with the last operation of the call that waits. -/
theorem simulates_ret (h : Faithful literal code) (hm : Corresponds literal code s m) {x : String}
    (hi : code[s.place]? = some (.ret x)) {place : Nat} {caller : Activation} {callers : List (Nat × Activation)}
    (hcallers : s.callers = (place, caller) :: callers) (hpending : s.current.pending = []) {j : Instruction}
    (hj : code[place]? = some j) :
    Simulates literal code m.limit m
      (.more ((⟨place, caller, callers, s.console⟩ : State σ).deliver j.binds? (readOperand literal s.current.env x))) := by
  have hsuspended := hm.callers
  rw [hcallers] at hsuspended
  generalize hframes : m.callers = frames at hsuspended
  cases hsuspended with
  | @cons _ _ _ f frames j' site hj' hsite hcaller hrest =>
      rw [hj] at hj'
      cases hj'
      have haddress := address_call_succ hj hsite
      have hlast : address code place + j.binds?.toList.length + 4 = address code (place + 1) - 1 := by omega
      have hop := fetch_delivery hm.ops hj hsite
      have hin := inside_call 4 hj hsite (by omega)
      rw [hlast] at hop hin
      have hreturn : address code (place + 1) - 1 < 2 ^ 53 := by
        have hle := address_le_length code (place + 1)
        have hsize := h.size
        omega
      have hleave : frames <:+ m.callers := hframes ▸ List.suffix_cons f frames
      have hself := hm.moved_self
      rw [hpending, hcallers] at hself
      rw [← hself]
      refine .moved (h.step_operand hm.frame (fetch 0 hm.ops hi rfl)) (inside_add 1 hi (by simp [width])) ?_
      refine .head (Machine.step_ret (fetch 1 hm.ops hi rfl) hframes (Value.toIndex?_ofIndex hreturn)) hin hleave (.last ?_)
      refine matches_deliver h (fun y hy => mem_slotNames (List.mem_of_getElem? hj) hy) hm.ops hop ?_
        (hcaller.push _) hrest hm.console hm.running
      show address code (place + 1) - 1 + 1 = address code (place + 1)
      omega

theorem simulates_call (h : Faithful literal code) (hm : Corresponds literal code s m)
    (hi : code[s.place]? = some i) (hsite : i.callSite? = some site) (hpending : s.current.pending.length < 2 ^ 53)
    {t : Transition σ} (hstep : s.call m.limit i.binds? site = some t) : Simulates literal code m.limit m t := by
  rw [State.call] at hstep
  cases htarget : site.target with
  | none =>
      rw [htarget] at hstep
      dsimp only at hstep
      split at hstep
      · rename_i hargc
        cases hstep
        exact simulates_callBuiltin h hm hi hsite htarget hargc hpending
      · cases hstep
  | some entry =>
      rw [htarget] at hstep
      dsimp only at hstep
      split at hstep
      · rename_i hdepth
        cases hstep
        exact simulates_overflow h hm hi hsite htarget hdepth
      · rename_i hdepth
        split at hstep
        · rename_i hargc
          obtain ⟨args, hargs, rfl⟩ := Option.map_eq_some_iff.1 hstep
          exact simulates_enter h hm hi hsite htarget (Nat.lt_of_not_le hdepth) hargc hpending hargs
        · cases hstep

end Calls

/-! ## Steps of code -/

section Code

variable {literal : Value → Value} {code : Code} {s : State σ} {m : Machine σ}

/-- The operations of an instruction have the effect of a step, whenever that is defined. -/
theorem simulates_step (h : Faithful literal code) (hm : Corresponds literal code s m)
    (hlive : code[s.place]? ≠ some .blank) (hpending : s.current.pending.length < 2 ^ 53) {t : Transition σ}
    (hstep : Ir.step literal code m.limit s = some t) : Simulates literal code m.limit m t := by
  rw [Ir.step] at hstep
  cases hi : code[s.place]? with
  | none =>
      rw [hi] at hstep
      cases hstep
      have hend : m.ops[m.ip]? = none := by
        rw [hm.ops, hm.ip, List.getElem?_toArray, List.getElem?_eq_none_iff, length_operations,
          address_of_length_le (List.getElem?_eq_none_iff.1 hi)]
      apply Simulates.last
      rw [Machine.step_end hend]
      exact ⟨hm.console, rfl⟩
  | some i =>
      rw [hi] at hstep
      cases i with
      | goto t => cases hstep; exact simulates_goto h hm hi
      | branch x t => cases hstep; exact simulates_branch h hm hi
      | assign x rhs =>
          cases rhs with
          | single y => cases hstep; exact simulates_single h hm hi
          | unary op y => cases hstep; exact simulates_unary h hm hi
          | binary op y z => cases hstep; exact simulates_binary h hm hi
          | call site => exact simulates_call h hm hi rfl hpending hstep
      | ret x =>
          cases hcallers : s.callers with
          | nil =>
              simp only [Instruction.perform, State.ret, hcallers] at hstep
              cases hstep
              exact simulates_ret_root h hm hi hcallers
          | cons waiting callers =>
              obtain ⟨place, caller⟩ := waiting
              simp only [Instruction.perform, State.ret, hcallers] at hstep
              split at hstep
              · rename_i hnone
                split at hstep
                · rename_i j hj
                  split at hstep
                  · cases hstep
                    exact simulates_ret h hm hi hcallers (List.isEmpty_iff.1 hnone) hj
                  · cases hstep
                · cases hstep
              · cases hstep
      | param x name => cases hstep; exact simulates_param h hm hi
      | call site => exact simulates_call h hm hi rfl hpending hstep
      | stop => cases hstep; exact simulates_stop hm hi
      | blank => exact absurd hi hlive

omit [Streams σ] in
theorem Corresponds.blank (hm : Corresponds literal code s m) (hi : code[s.place]? = some .blank) :
    Corresponds literal code s.next m :=
  { hm with ip := hm.ip.trans (address_succ hi).symm }

omit [Streams σ] in
theorem corresponds_initial (literal : Value → Value) (code : Code) (limit : Nat) (console : σ) :
    Corresponds literal code (.initial console) (.ofOps (operations literal code) limit console) :=
  { ops := rfl
    ip := rfl
    frame := represents_ofStack literal _ [] []
    callers := .nil
    console := rfl
    running := rfl }

end Code

/-! ## Linear code -/

theorem width_pos {i : Instruction} (h : i.isBlank = false) : 0 < width i := by
  cases i with
  | assign x rhs => cases rhs <;> simp [width]
  | blank => cases h
  | _ => simp [width]

theorem operations_id (code : Code) :
    operations id code = code.flatMap (instructionOps (slotNames code) (address code)) := by
  have hid : Op.mapLiteral id = id := by
    funext op
    cases op <;> rfl
  rw [operations, hid, List.map_id]

theorem faithful_of_validate {code : Code} (hvalid : code.validate = .ok ())
    (hsize : address code code.length < 2 ^ 53) : Faithful id code := by
  obtain ⟨htargets, hlive⟩ := Ir.Code.targetsBelow_of_validateFrom hvalid
  refine ⟨hsize, ?_, fun _ _ => rfl, rfl, fun _ _ _ _ _ => rfl⟩
  intro i hi t ht
  have hlt := htargets i hi t ht
  have hget : code[t]? = some code[t] := List.getElem?_eq_getElem hlt
  have hwidth := width_pos (hlive _ (List.getElem_mem hlt))
  have hnext := address_succ hget
  have hlast := address_le_length code (t + 1)
  omega

/-- Lowering preserves what code means: linear code is lowered, and from corresponding states the operations of an
instruction have the effect of its step, whenever that step is defined. Addresses and the counts of parameters are numbers
at run time, which are exact below `2 ^ 53`. -/
theorem lower_preserves_meaning (code : Code) (hvalid : code.validate = .ok ()) :
    lower code = .ok (operations id code) ∧ ((operations id code).length < 2 ^ 53 →
      ∀ (s : State σ) (m : Machine σ) (t : Transition σ), Corresponds id code s m → s.current.pending.length < 2 ^ 53 →
      Ir.step id code m.limit s = some t →
      ∃ n m', Walk (Inside code) n m m' ∧ Matches id code m.limit t m'.step) := by
  obtain ⟨htargets, hlive⟩ := Ir.Code.targetsBelow_of_validateFrom hvalid
  refine ⟨lower_eq_ok_iff.2 ⟨htargets, operations_id code⟩, ?_⟩
  intro hsize s m t hm hpending hstep
  rw [length_operations] at hsize
  refine simulates_step (faithful_of_validate hvalid hsize) hm ?_ hpending hstep
  intro hblank
  have hfalse := hlive _ (List.mem_of_getElem? hblank)
  cases hfalse

/-- A call of `f`, which calls `g` with its argument and another one. -/
def nestedCalls : Code :=
  [.param "\"a\"" (some "n"), .assign "x" (.call ⟨"f", 1, some 3⟩), .stop,
    .param "n" (some "n"), .param "\"b\"" (some "m"), .assign "y" (.call ⟨"g", 2, some 7⟩), .ret "y",
    .ret "m"]

/-- In `f`, after its parameters were pushed. -/
def beforeNestedCall : State Console :=
  ⟨5, ⟨Env.empty.set "n" (.string "a"), [(some "m", .string "b"), (some "n", .string "a")]⟩, [(1, ⟨.empty, []⟩)],
    .new [] none none⟩

/-- The machine in that state. The slots are those of `n`, `x`, `m` and `y`, and the call at the top ends at 7. -/
def beforeNestedCallOps : Machine Console where
  ops := (operations id nestedCalls).toArray
  limit := 3
  ip := 13
  frame := (Frame.ofStack [.string "b", .ofIndex 2, .string "a", .ofIndex 0, .ofIndex 7]).bind 0 (.string "a")
  callers := [.ofStack [.ofIndex 1]]
  console := .new [] none none
  status := .running

theorem corresponds_beforeNestedCall : Corresponds id nestedCalls beforeNestedCall beforeNestedCallOps where
  ops := rfl
  ip := rfl
  frame := by
    have hslots : slotNames nestedCalls = ["n", "x", "m", "y"] := by decide
    have hn : "n" ∈ slotNames nestedCalls := by simp [hslots]
    have hm : "m" ∈ slotNames nestedCalls := by simp [hslots]
    have hbound := (represents_ofStack id (slotNames nestedCalls) [] [.ofIndex 7]).bind hn (.string "a")
    have hfirst := (hbound.withTop [.string "a", slotValue id (slotNames nestedCalls) (some "n")]).param
      fun _ hy => Option.some.inj hy ▸ hn
    exact (hfirst.withTop [.string "b", slotValue id (slotNames nestedCalls) (some "m")]).param
      fun _ hy => Option.some.inj hy ▸ hm
  callers := .cons rfl rfl (represents_ofStack id _ [.ofIndex 1] []) .nil
  console := rfl
  running := rfl

/-- A call in a function that was itself called. The parameters that were pushed go to the callee by their names. -/
theorem lower_preserves_meaning_call :
    nestedCalls.validate = .ok () ∧ (operations id nestedCalls).length < 2 ^ 53
      ∧ ∃ n m', Walk (Inside nestedCalls) n beforeNestedCallOps m' ∧ Matches id nestedCalls 3
          (.more ⟨7, ⟨Env.empty.setAll [("n", .string "a"), ("m", .string "b")], []⟩,
            [(5, ⟨Env.empty.set "n" (.string "a"), []⟩), (1, ⟨.empty, []⟩)], .new [] none none⟩) m'.step := by
  have hvalid : nestedCalls.validate = .ok () := rfl
  have hsize : (operations id nestedCalls).length < 2 ^ 53 := by
    rw [length_operations]
    decide
  have hstep : Ir.step id nestedCalls 3 beforeNestedCall = some (.more
      ⟨7, ⟨Env.empty.setAll [("n", .string "a"), ("m", .string "b")], []⟩,
        [(5, ⟨Env.empty.set "n" (.string "a"), []⟩), (1, ⟨.empty, []⟩)], .new [] none none⟩) := rfl
  exact ⟨hvalid, hsize, (lower_preserves_meaning _ hvalid).2 hsize _ _ _ corresponds_beforeNestedCall (by decide) hstep⟩

end Scriptlet.Bytecode
