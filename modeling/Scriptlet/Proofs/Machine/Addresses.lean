import Mathlib.Tactic
import Scriptlet.Proofs.Machine.Limit
import Scriptlet.Proofs.Number.Nearest

/-!
# Where control goes

Jumps, branches and calls go to operations of the program only; an address beyond it is an error. A return goes to
whatever index it finds. So a run is past the end of the program exactly if it has come to an operation after the last
one or made a return to an address beyond.
-/

namespace Scriptlet.Machine

variable {σ : Type} [Streams σ] {m m' : Machine σ}

/-! ## Steps that go on -/

theorem taken_of_jump (hop : m.ops[m.ip]? = some .jump) (h : m.step = .more m') :
    ∃ address rest, m.frame.stack = address :: rest ∧ address.toIndex? = some m'.ip ∧ m'.ip < m.ops.size := by
  simp only [step, hop, exec] at h
  split at h
  · rename_i action frame hexec
    obtain ⟨n, f₁, haddress, hexec⟩ := bind_eq_ok hexec
    cases hexec
    cases h
    obtain ⟨address, hframe, hn, hsize⟩ := FrameM.eq_push_of_takeAddress haddress
    exact ⟨address, _, congrArg Frame.stack hframe, hn, hsize⟩
  · cases h

theorem taken_of_branch (hop : m.ops[m.ip]? = some .branch) (h : m.step = .more m') :
    ∃ v address rest n, m.frame.stack = v :: address :: rest ∧ address.toIndex? = some n ∧ n < m.ops.size
      ∧ m'.ip = if v.truthy then n else m.ip + 1 := by
  simp only [step, hop, exec] at h
  split at h
  · rename_i action frame hexec
    obtain ⟨v, f₁, hv, hexec⟩ := bind_eq_ok hexec
    obtain ⟨n, f₂, haddress, hexec⟩ := bind_eq_ok hexec
    cases hexec
    obtain ⟨address, hf₁, hn, hsize⟩ := FrameM.eq_push_of_takeAddress haddress
    refine ⟨v, address, frame.stack, n, ?_, hn, hsize, ?_⟩
    · rw [FrameM.eq_push_of_pop hv, hf₁]
      rfl
    · cases htruthy : v.truthy <;> rw [htruthy] at h <;> cases h <;> rfl
  · cases h

theorem taken_of_call (hop : m.ops[m.ip]? = some .call) (h : m.step = .more m') :
    ∃ argc address rest, m.frame.stack = argc :: address :: rest ∧ argc.toIndex?.isSome
      ∧ address.toIndex? = some m'.ip ∧ m'.ip < m.ops.size := by
  simp only [step, hop, exec] at h
  split at h
  · rename_i action frame hcall
    obtain ⟨argc, address, flag, destination, args, rest, n, callee, hframe, hargc, haddress, hsize, -, -, -, rfl⟩ :=
      exists_of_call hcall
    cases h
    exact ⟨argc, address, _, congrArg Frame.stack hframe, by rw [hargc]; rfl, haddress, hsize⟩
  · cases h

theorem exists_of_callBuiltin {f f' : Frame} {action : Action} (h : callBuiltin f = .ok action f') :
    ∃ b args destination, action = .invoke b args destination := by
  obtain ⟨argc, _, -, h⟩ := bind_eq_ok h
  obtain ⟨name, _, -, h⟩ := bind_eq_ok h
  cases name with
  | string name =>
      obtain ⟨destination, _, -, h⟩ := bind_eq_ok h
      obtain ⟨args, _, -, h⟩ := bind_eq_ok h
      cases hb : Builtin.ofName? name with
      | none =>
          rw [hb] at h
          cases h
      | some b =>
          rw [hb] at h
          cases h
          exact ⟨_, _, _, rfl⟩
  | _ => cases h

/-- The operations that take an address. -/
def takesAddress : Op → Bool
  | .jump | .branch | .call | .ret => true
  | _ => false

theorem ip_of_step {op : Op} (hop : m.ops[m.ip]? = some op) (haddress : takesAddress op = false)
    (h : m.step = .more m') : m'.ip = m.ip + 1 := by
  simp only [step, hop] at h
  split at h
  · rename_i action frame hexec
    cases op with
    | jump => cases haddress
    | branch => cases haddress
    | call => cases haddress
    | ret => cases haddress
    | halt => cases hexec; cases h
    | callBuiltin =>
        obtain ⟨b, args, destination, rfl⟩ := exists_of_callBuiltin hexec
        simp only [perform] at h
        split at h
        · cases h
          rfl
        · cases h
    | store =>
        obtain ⟨v, _, -, hexec⟩ := bind_eq_ok hexec
        obtain ⟨slot, _, -, hexec⟩ := bind_eq_ok hexec
        cases hexec
        cases h
        rfl
    | _ =>
        obtain ⟨_, _, -, hexec⟩ := bind_eq_ok hexec
        cases hexec
        cases h
        rfl
  · cases h

/-- The value from which the next operation takes the address to go on at. A call comes to it only if there is a frame
left and the number of its arguments is an index. A return at the root needs none. -/
def target? (m : Machine σ) : Option Value :=
  match m.ops[m.ip]?, m.frame.stack with
  | some .jump, address :: _ => some address
  | some .branch, _ :: address :: _ => some address
  | some .call, argc :: address :: _ => if m.depth < m.limit ∧ argc.toIndex?.isSome then some address else none
  | some .ret, _ :: address :: _ => if 1 < m.depth then some address else none
  | _, _ => none

omit [Streams σ] in
theorem exists_caller (h : 1 < m.depth) : ∃ caller callers, m.callers = caller :: callers :=
  List.exists_cons_of_length_pos (Nat.lt_of_succ_lt_succ h)

/-- A step that goes on leads to the next operation or to the address that it took. Only a return does not look whether
there is an operation. -/
theorem ip_of_more (h : m.step = .more m') :
    (m'.ip = m.ip + 1 ∧ m.ip < m.ops.size ∧ m.ops[m.ip]? ≠ some .jump ∧ m.ops[m.ip]? ≠ some .call
        ∧ m.ops[m.ip]? ≠ some .ret)
      ∨ ∃ address, m.target? = some address ∧ address.toIndex? = some m'.ip
        ∧ (m.ops[m.ip]? ≠ some .ret → m'.ip < m.ops.size) := by
  cases hop : m.ops[m.ip]? with
  | none =>
      rw [step_end hop] at h
      cases h
  | some op =>
      have hip : m.ip < m.ops.size := (Array.getElem?_eq_some_iff.1 hop).1
      cases op with
      | jump =>
          obtain ⟨address, rest, hstack, hn, hsize⟩ := taken_of_jump hop h
          exact .inr ⟨address, by simp [target?, hop, hstack], hn, fun _ => hsize⟩
      | branch =>
          obtain ⟨v, address, rest, n, hstack, hn, hsize, hnext⟩ := taken_of_branch hop h
          cases htruthy : v.truthy with
          | false =>
              rw [htruthy] at hnext
              exact .inl ⟨hnext, hip, by simp⟩
          | true =>
              rw [htruthy, if_pos rfl] at hnext
              subst hnext
              exact .inr ⟨address, by simp [target?, hop, hstack], hn, fun _ => hsize⟩
      | call =>
          obtain ⟨argc, address, rest, hstack, hargc, hn, hsize⟩ := taken_of_call hop h
          exact .inr ⟨address, by simp [target?, hop, hstack, hargc, depth_lt_of_call hop h], hn, fun _ => hsize⟩
      | ret =>
          obtain ⟨v, caller, hleaves⟩ := leaves_of_step hop h
          obtain ⟨address, rest, hstack, hn⟩ := hleaves.taken
          have hdepth : 1 < m.depth := by simp [depth, hleaves.callers]
          exact .inr ⟨address, by simp [target?, hop, hstack, hdepth], hn, fun hne => absurd rfl hne⟩
      | _ => exact .inl ⟨ip_of_step hop rfl h, hip, by simp⟩

/-! ## Addresses that are refused -/

/-- What an error says of a value that is no address. -/
def addressText (v : Value) : String :=
  match v.toIndex? with
  | some n => toString n
  | none => v.text

/-- The next operation can go on at what it takes for an address. To a return every index is an address. -/
def Accepts (m : Machine σ) (address : Value) : Prop :=
  ∃ n, address.toIndex? = some n ∧ (n < m.ops.size ∨ m.ops[m.ip]? = some .ret)

theorem takeIndex_refused {v : Value} {rest : List Value} {f : Frame} (h : v.toIndex? = none) :
    FrameM.takeIndex .invalidAddress ⟨v :: rest, f.slots⟩
      = .error (.invalidAddress (addressText v)) ⟨rest, f.slots⟩ := by
  simp only [FrameM.takeIndex, bind, EStateM.bind, FrameM.pop_cons, addressText, h]
  rfl

theorem takeAddress_refused {v : Value} {rest : List Value} {f : Frame} {size : Nat}
    (h : ∀ n, v.toIndex? = some n → size ≤ n) :
    FrameM.takeAddress size ⟨v :: rest, f.slots⟩
      = .error (.invalidAddress (addressText v)) ⟨rest, f.slots⟩ := by
  cases hv : v.toIndex? with
  | none => simp only [FrameM.takeAddress, bind, EStateM.bind, takeIndex_refused hv]
  | some n =>
      have hn : ¬ n < size := Nat.not_lt.2 (h n hv)
      simp only [FrameM.takeAddress, bind, EStateM.bind, FrameM.takeIndex_cons hv, if_neg hn, addressText, hv]
      rfl

theorem step_of_exec_error {op : Op} {e : RuntimeError} {stack : List Value} {frame : Frame}
    (hop : m.ops[m.ip]? = some op) (hstack : m.frame.stack = stack)
    (hexec : m.exec op ⟨stack, m.frame.slots⟩ = .error e frame) :
    m.step = .done { m with frame, status := .faulted } (.error e) := by
  subst hstack
  have hexec' : m.exec op m.frame = .error e frame := hexec
  simp only [step, hop, hexec', stop]

theorem step_of_refused {address : Value} (htarget : m.target? = some address) (h : ¬ m.Accepts address) :
    ∃ frame, m.step = .done { m with frame, status := .faulted } (.error (.invalidAddress (addressText address))) := by
  have hbeyond : ∀ n, address.toIndex? = some n → m.ops.size ≤ n := fun n hn =>
    Nat.le_of_not_lt fun hlt => h ⟨n, hn, .inl hlt⟩
  unfold target? at htarget
  split at htarget
  · rename_i rest hop hstack
    cases htarget
    refine ⟨⟨rest, m.frame.slots⟩, step_of_exec_error hop hstack ?_⟩
    simp only [exec, bind, EStateM.bind, takeAddress_refused hbeyond]
  · rename_i v rest hop hstack
    cases htarget
    refine ⟨⟨rest, m.frame.slots⟩, step_of_exec_error hop hstack ?_⟩
    simp only [exec, bind, EStateM.bind, FrameM.pop_cons, takeAddress_refused hbeyond]
  · rename_i argc rest hop hstack
    split at htarget
    · rename_i hcall
      cases htarget
      obtain ⟨count, hcount⟩ := Option.isSome_iff_exists.1 hcall.2
      refine ⟨⟨rest, m.frame.slots⟩, step_of_exec_error hop hstack ?_⟩
      rw [exec, call, if_neg (Nat.not_le.2 hcall.1)]
      simp only [bind, EStateM.bind, FrameM.takeIndex_cons hcount, takeAddress_refused hbeyond]
    · cases htarget
  · rename_i v rest hop hstack
    split at htarget
    · rename_i hdepth
      cases htarget
      obtain ⟨caller, callers, hcallers⟩ := exists_caller hdepth
      have hindex : address.toIndex? = none :=
        Option.eq_none_iff_forall_ne_some.2 fun n hn => h ⟨n, hn, .inr hop⟩
      refine ⟨⟨rest, m.frame.slots⟩, step_of_exec_error hop hstack ?_⟩
      simp only [exec, ret, bind, EStateM.bind, FrameM.pop_cons, hcallers, takeIndex_refused hindex]
    · cases htarget
  · cases htarget

/-! ## Runs -/

/-- The next step is a return to an address beyond the end of the program. -/
structure Strays (m : Machine σ) : Prop where
  running : m.status = .running
  op : m.ops[m.ip]? = some .ret
  beyond : ∃ address n, m.target? = some address ∧ address.toIndex? = some n ∧ m.ops.size < n

omit [Streams σ] in
theorem exists_of_target?_ret {address : Value} (hop : m.ops[m.ip]? = some .ret) (h : m.target? = some address) :
    ∃ v rest caller callers, m.frame.stack = v :: address :: rest ∧ m.callers = caller :: callers := by
  rcases hstack : m.frame.stack with _ | ⟨v, _ | ⟨w, rest⟩⟩
  · simp [target?, hop, hstack] at h
  · simp [target?, hop, hstack] at h
  · obtain ⟨hdepth, rfl⟩ : 1 < m.depth ∧ w = address := by simpa [target?, hop, hstack] using h
    obtain ⟨caller, callers, hcallers⟩ := exists_caller hdepth
    exact ⟨v, rest, caller, callers, rfl, hcallers⟩

theorem step_of_strays (h : m.Strays) : ∃ m', m.step = .more m' ∧ m.ops.size < m'.ip := by
  obtain ⟨address, n, htarget, hn, hsize⟩ := h.beyond
  obtain ⟨v, rest, caller, callers, hstack, hcallers⟩ := exists_of_target?_ret h.op htarget
  have hstep := @step_ret σ _ m m.ip rest v address n caller callers h.op hcallers hn
  rw [moved_self rfl hstack] at hstep
  exact ⟨_, hstep, hsize⟩

/-- Only a return that strays leads beyond the end. -/
theorem ip_advance_le (h : m.ip ≤ m.ops.size) (hstrays : ¬ m.Strays) : m.advance.ip ≤ m.ops.size := by
  by_cases hrunning : m.status = .running
  · cases hstep : m.step with
    | done m' outcome =>
        rw [advance_of_done hrunning hstep, (stopped_of_step_done hstep).1]
        exact h
    | more m' =>
        rw [advance_of_more hrunning hstep]
        rcases ip_of_more hstep with ⟨hnext, hip, -⟩ | ⟨address, htarget, hn, hsize⟩
        · omega
        · by_cases hop : m.ops[m.ip]? = some .ret
          · exact Nat.le_of_not_lt fun hbeyond => hstrays ⟨hrunning, hop, address, _, htarget, hn, hbeyond⟩
          · exact (hsize hop).le
  · rw [advance_of_stopped hrunning]
    exact h

theorem ip_advance_of_beyond (h : m.ops.size < m.ip) : m.advance.ip = m.ip := by
  by_cases hrunning : m.status = .running
  · rw [advance_of_done hrunning (step_end (Array.getElem?_eq_none h.le))]
  · rw [advance_of_stopped hrunning]

theorem ip_after_of_beyond (h : m.ops.size < m.ip) (n : Nat) : (m.after n).ip = m.ip := by
  induction n with
  | zero => rfl
  | succ n ih => rw [after, ip_advance_of_beyond (by rw [(kept_after m n).1, ih]; exact h), ih]

theorem exists_strays_of_beyond {n : Nat} (h : m.ip ≤ m.ops.size) (hn : m.ops.size < (m.after n).ip) :
    ∃ k < n, (m.after k).Strays := by
  induction n with
  | zero => exact absurd hn (Nat.not_lt.2 h)
  | succ n ih =>
      have hops := (kept_after m n).1
      -- the step that strayed is the last one, or it was before that
      by_cases hearlier : m.ops.size < (m.after n).ip
      · obtain ⟨k, hk, hstrays⟩ := ih hearlier
        exact ⟨k, Nat.lt_succ_of_lt hk, hstrays⟩
      · refine ⟨n, Nat.lt_succ_self n, ?_⟩
        by_contra hstrays
        have hle := ip_advance_le (hops.symm ▸ Nat.le_of_not_lt hearlier) hstrays
        rw [hops] at hle
        exact absurd hn (Nat.not_lt.2 hle)

theorem exists_reaches (start : Machine σ) (n : Nat) : ∃ returns, start.Reaches returns (start.after n) := by
  induction n with
  | zero => exact ⟨[], .start⟩
  | succ n ih =>
      obtain ⟨returns, hreaches⟩ := ih
      by_cases hrunning : (start.after n).status = .running
      · cases hstep : (start.after n).step with
        | more m' =>
            rw [after, advance_of_more hrunning hstep]
            exact ⟨_, hreaches.more hrunning hstep⟩
        | done m' outcome =>
            rw [after, advance_of_done hrunning hstep]
            exact ⟨_, hreaches.done hrunning hstep⟩
      · rw [after, advance_of_stopped hrunning]
        exact ⟨returns, hreaches⟩

/-- Beyond the end no step is proper, so operations that are safe do not stray. -/
theorem not_strays_of_stackSafe {ops : List Op} {limit : Nat} {console : σ} (hsafe : StackSafe σ ops)
    (h : (ofOps ops limit console).Reached m) : ¬ m.Strays := by
  intro hstrays
  -- the machine after the return is still running, but there is no operation for it
  obtain ⟨m', hstep, hbeyond⟩ := step_of_strays hstrays
  obtain ⟨hops, -, hstatus⟩ := kept_of_step hstep
  obtain ⟨n, hn⟩ := h.advance.exists_after
  obtain ⟨returns, hreaches⟩ := exists_reaches (ofOps ops limit console) n
  rw [hn, advance_of_more hstrays.running hstep] at hreaches
  have hproper := hsafe.step limit console returns m' hreaches (hstatus.trans hstrays.running)
  have hend : m'.ops[m'.ip]? = none := Array.getElem?_eq_none (hops ▸ hbeyond.le)
  rw [Proper, step_end hend] at hproper
  exact absurd hend (hproper ▸ Option.some_ne_none _)

/-- A run from one machine to the other took a return to an address beyond the end. -/
def Strayed (start m : Machine σ) : Prop :=
  ∃ earlier, start.Reached earlier ∧ earlier.Strays ∧ earlier.advance.Reached m

theorem beyond_iff_strayed {ops : List Op} {limit : Nat} {console : σ}
    (h : (ofOps ops limit console).Reached m) : ops.length < m.ip ↔ (ofOps ops limit console).Strayed m := by
  constructor
  · intro hbeyond
    obtain ⟨n, rfl⟩ := h.exists_after
    obtain ⟨k, hk, hstrays⟩ := exists_strays_of_beyond (m := ofOps ops limit console) (Nat.zero_le _) hbeyond
    refine ⟨_, reached_after _ k, hstrays, ?_⟩
    obtain ⟨j, rfl⟩ := Nat.exists_eq_add_of_lt hk
    rw [Nat.add_assoc, after_add, after_succ]
    exact reached_after _ j
  · rintro ⟨earlier, hearlier, hstrays, hlater⟩
    obtain ⟨k, rfl⟩ := hearlier.exists_after
    obtain ⟨j, rfl⟩ := hlater.exists_after
    obtain ⟨m', hstep, hbeyond⟩ := step_of_strays hstrays
    rw [advance_of_more hstrays.running hstep, ip_after_of_beyond (by rwa [(kept_of_step hstep).1])]
    rwa [(kept_after _ k).1, ofOps, List.size_toArray] at hbeyond

theorem end_of_run {ops : List Op} {limit fuel : Nat} {console : σ} (h : (ofOps ops limit console).Reached m)
    (hrunning : m.status = .running) (hrun : run fuel m = some (m', .ok none)) :
    ops[m'.ip]? = some .halt ∨ m'.ip = ops.length ∨ (ofOps ops limit console).Strayed m' := by
  obtain ⟨n, -, -, hlast⟩ := exists_last_step hrunning hrun
  obtain ⟨k, hk⟩ := h.exists_after
  have hops : (m.after n).ops = ops.toArray := by
    rw [(kept_after m n).1, ← hk, (kept_after _ k).1, ofOps]
  have hget : (m.after n).ops[(m.after n).ip]? = ops[m'.ip]? := by
    rw [hops, (stopped_of_step_done hlast).1, List.getElem?_toArray]
  rcases op_of_step_done hlast with hend | ⟨hhalt, -⟩ | ⟨-, -, hsome⟩
  · right
    rw [hget, List.getElem?_eq_none_iff] at hend
    rw [← beyond_iff_strayed (h.run hrun)]
    omega
  · exact .inl (hget ▸ hhalt)
  · cases hsome

/-- Control leaves a program by returns only. Every machine that a program comes to is at an operation or at the end,
unless there was a return to an address beyond. A step that goes on leads to the next operation or to the address that it
took; this is the address of an operation, if the step was not a return. An address that is not accepted is an error. So
a run that ends without a value is at a halt or at the end, unless it has strayed, which safe operations never do. -/
theorem leaves_program_by_return {ops : List Op} {limit : Nat} {console : σ} {m : Machine σ}
    (h : (ofOps ops limit console).Reached m) :
    (ops.length < m.ip ↔ (ofOps ops limit console).Strayed m)
      ∧ (∀ m', m.step = .more m' →
        (m'.ip = m.ip + 1 ∧ m.ip < ops.length ∧ m.ops[m.ip]? ≠ some .jump ∧ m.ops[m.ip]? ≠ some .call
            ∧ m.ops[m.ip]? ≠ some .ret)
          ∨ ∃ address, m.target? = some address ∧ address.toIndex? = some m'.ip
            ∧ (m.ops[m.ip]? ≠ some .ret → m'.ip < ops.length))
      ∧ (∀ address, m.target? = some address → ¬ m.Accepts address → ∃ frame,
        m.step = .done { m with frame, status := .faulted } (.error (.invalidAddress (addressText address))))
      ∧ (m.status = .running → ∀ fuel final, run fuel m = some (final, .ok none) →
        ops[final.ip]? = some .halt ∨ final.ip = ops.length ∨ (ofOps ops limit console).Strayed final)
      ∧ (StackSafe σ ops → ¬ m.Strays) := by
  have hsize : m.ops.size = ops.length := by
    obtain ⟨n, rfl⟩ := h.exists_after
    rw [(kept_after _ n).1, ofOps, List.size_toArray]
  refine ⟨beyond_iff_strayed h, ?_, fun _ => step_of_refused, fun hrunning _ _ => end_of_run h hrunning, fun hsafe =>
    not_strays_of_stackSafe hsafe h⟩
  intro m' hstep
  rw [← hsize]
  exact ip_of_more hstep

/-- A function that drops the address to return to and pushes another one. -/
def straying : List Op :=
  [.push (.ofIndex 0), .push (.ofIndex 4), .push (.ofIndex 0), .call, .pop, .push (.ofIndex 99), .push .nil, .ret]

/-- A program that jumps beyond its end. -/
def jumpBeyond : List Op :=
  [.push (.ofIndex 7), .jump]

/-- A return leads beyond the end, and a jump does not. -/
theorem leaves_program_by_return_straying :
    (∃ m, (ofOps straying 2 (Console.new [] none none)).Reached m ∧ straying.length < m.ip
        ∧ (ofOps straying 2 (Console.new [] none none)).Strayed m)
      ∧ ∃ m, (ofOps jumpBeyond 1 (Console.new [] none none)).Reached m ∧ m.target? = some (.ofIndex 7) ∧ ∃ frame,
        m.step = .done { m with frame, status := .faulted } (.error (.invalidAddress "7")) := by
  have hseven : (Value.ofIndex 7).toIndex? = some 7 := Value.toIndex?_ofIndex (by decide)
  constructor
  · have hreached := reached_after (ofOps straying 2 (Console.new [] none none)) 8
    have hbeyond : straying.length < ((ofOps straying 2 (Console.new [] none none)).after 8).ip := by
      decide +kernel
    exact ⟨_, hreached, hbeyond, (leaves_program_by_return hreached).1.1 hbeyond⟩
  · have hreached := reached_after (ofOps jumpBeyond 1 (Console.new [] none none)) 1
    have hnone : ¬ ((ofOps jumpBeyond 1 (Console.new [] none none)).after 1).Accepts (.ofIndex 7) := by
      rintro ⟨n, hn, hlt | hret⟩
      · rw [hseven] at hn
        cases hn
        exact absurd hlt (by decide)
      · cases hret
    obtain ⟨-, -, hrefused, -⟩ := leaves_program_by_return hreached
    have hstep := hrefused _ rfl hnone
    rw [addressText, hseven] at hstep
    exact ⟨_, hreached, rfl, hstep⟩

/-- It returns beyond the end, and the run ends there as if it had come to the end. -/
theorem return_beyond_end_is_no_error :
    ∃ final, run 9 (ofOps straying defaultLimit (Console.new [] none none)) = some (final, .ok none)
      ∧ final.status = .halted ∧ straying.length < final.ip := by
  have hends : (run 9 (ofOps straying defaultLimit (Console.new [] none none))).any
      (fun r => r.1.status = .halted ∧ r.1.ip = 99 ∧ r.2 = .ok none) = true := by
    decide +kernel
  obtain ⟨⟨final, outcome⟩, hrun, hfinal⟩ := (Option.any_eq_true _ _).1 hends
  obtain ⟨hstatus, hip, rfl⟩ : final.status = .halted ∧ final.ip = 99 ∧ outcome = .ok none := by simpa using hfinal
  exact ⟨final, hrun, hstatus, by rw [hip]; decide⟩

end Scriptlet.Machine
