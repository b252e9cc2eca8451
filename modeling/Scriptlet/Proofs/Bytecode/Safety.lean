import Mathlib.Tactic
import Scriptlet.Proofs.Bytecode.Simulation
import Scriptlet.Proofs.Ir.Balance

/-!
# The operations of balanced code are safe

Every machine that a run of the operations comes to is on its way from one state of the code to the next. Since no
state of balanced code is stuck, all steps are proper. Jumps and calls lead to first operations of instructions, where no
parameter is pushed.
-/

namespace Scriptlet.Bytecode

open Ir (Code Instruction CallSite Activation State Transition Balanced Safe Rests scan)
open Machine (Walk)

/-! ## Targets among operations -/

section Targets

variable {literal : Value → Value} {code : Code}

/-- Every address is that of some operation of some instruction. -/
theorem exists_place {ip : Nat} (h : ip < address code code.length) :
    ∃ place i k, code[place]? = some i ∧ k < width i ∧ ip = address code place + k := by
  induction code generalizing ip with
  | nil => exact absurd h (Nat.not_lt_zero ip)
  | cons i code ih =>
      by_cases hlt : ip < width i
      · exact ⟨0, i, ip, rfl, hlt, by rw [address_zero, Nat.zero_add]⟩
      · rw [List.length_cons, address_cons_succ] at h
        obtain ⟨place, j, k, hj, hk, hip⟩ := ih (show ip - width i < address code code.length by omega)
        exact ⟨place + 1, j, k, hj, hk, by rw [address_cons_succ]; omega⟩

/-- What an operation does but push. -/
def control? : Op → Option Op
  | .push _ | .pushSlot _ => none
  | op => some op

/-- The operations of an instruction, with nothing told about those that push. -/
def controls : Instruction → List (Option Op)
  | .goto _ => [none, some .jump]
  | .branch _ _ => [none, none, some .branch]
  | .assign _ (.single _) => [none, none, some .store]
  | .assign _ (.unary op _) => [none, none, some (.unary op), some .store]
  | .assign _ (.binary op _ _) => [none, none, none, some (.binary op), some .store]
  | .assign _ (.call site) =>
    [none, none, none, none, some (if site.target.isSome then .call else .callBuiltin), some .store]
  | .ret _ => [none, some .ret]
  | .param _ _ => [none, none]
  | .call site => [none, none, none, some (if site.target.isSome then .call else .callBuiltin), some .pop]
  | .stop => [some .halt]
  | .blank => []

@[simp]
theorem control?_mapLiteral (op : Op) : control? (op.mapLiteral literal) = control? op := by
  cases op <;> rfl

@[simp]
theorem control?_operandOp (slots : List String) (x : String) : control? (operandOp slots x) = none := by
  rw [operandOp]
  split
  · rfl
  · split
    · split <;> rfl
    · rfl

theorem map_control?_instructionOps (slots : List String) (target : Nat → Nat) (i : Instruction) :
    (instructionOps slots target i).map control? = controls i := by
  cases i with
  | branch x t =>
      simp only [instructionOps, List.map_cons, List.map_nil, control?_operandOp]
      rfl
  | assign x rhs =>
      cases rhs with
      | call site => cases hsite : site.target <;> simp only [instructionOps, callOps, controls, hsite] <;> rfl
      | _ =>
          simp only [instructionOps, List.cons_append, List.nil_append, List.map_cons, List.map_nil, control?_operandOp]
          rfl
  | ret x =>
      simp only [instructionOps, List.map_cons, List.map_nil, control?_operandOp]
      rfl
  | param x name =>
      cases name <;> simp only [instructionOps, List.map_cons, List.map_nil, control?_operandOp] <;> rfl
  | call site => cases hsite : site.target <;> simp only [instructionOps, callOps, controls, hsite] <;> rfl
  | _ => rfl

/-- An operation other than a push tells at which place of which kind of instruction it stands. -/
theorem exists_control {ip : Nat} {op : Op} (hop : (operations literal code)[ip]? = some op)
    (hcontrol : control? op = some op) :
    ∃ place i k, code[place]? = some i ∧ ip = address code place + k ∧ (controls i)[k]? = some (some op) := by
  have hlt : ip < address code code.length := by
    rw [← length_operations literal]
    exact (List.getElem?_eq_some_iff.1 hop).1
  obtain ⟨place, i, k, hi, hk, rfl⟩ := exists_place hlt
  rw [getElem?_operations literal hi hk] at hop
  obtain ⟨op', hop', rfl⟩ := Option.map_eq_some_iff.1 hop
  rw [control?_mapLiteral] at hcontrol
  refine ⟨place, i, k, hi, rfl, ?_⟩
  rw [← map_control?_instructionOps (slotNames code) (address code) i, List.getElem?_map, hop', Option.map_some, hcontrol]

theorem goto_of_controls {i : Instruction} {k : Nat} (h : (controls i)[k]? = some (some .jump)) :
    k = 1 ∧ ∃ t, i = .goto t := by
  have hmem := List.mem_of_getElem? h
  cases i with
  | goto t =>
      refine ⟨?_, t, rfl⟩
      rcases k with _ | _ | k
      · cases h
      · rfl
      · cases h
  | assign x rhs =>
      cases rhs with
      | call site => cases hsite : site.target <;> simp [controls, hsite] at hmem
      | _ => simp [controls] at hmem
  | call site => cases hsite : site.target <;> simp [controls, hsite] at hmem
  | _ => simp [controls] at hmem

theorem branch_of_controls {i : Instruction} {k : Nat} (h : (controls i)[k]? = some (some .branch)) :
    k = 2 ∧ ∃ x t, i = .branch x t := by
  have hmem := List.mem_of_getElem? h
  cases i with
  | branch x t =>
      refine ⟨?_, x, t, rfl⟩
      rcases k with _ | _ | _ | k
      · cases h
      · cases h
      · rfl
      · cases h
  | assign x rhs =>
      cases rhs with
      | call site => cases hsite : site.target <;> simp [controls, hsite] at hmem
      | _ => simp [controls] at hmem
  | call site => cases hsite : site.target <;> simp [controls, hsite] at hmem
  | _ => simp [controls] at hmem

theorem call_of_controls {i : Instruction} {k : Nat} (h : (controls i)[k]? = some (some .call)) :
    ∃ site t, i.callSite? = some site ∧ site.target = some t ∧ k = i.binds?.toList.length + 3 := by
  have hmem := List.mem_of_getElem? h
  cases i with
  | assign x rhs =>
      cases rhs with
      | call site =>
          cases hsite : site.target with
          | none => simp [controls, hsite] at hmem
          | some t =>
              refine ⟨site, t, rfl, hsite, ?_⟩
              rcases k with _ | _ | _ | _ | _ | _ | k
              case succ.succ.succ.succ.zero => rfl
              all_goals cases h
      | _ => simp [controls] at hmem
  | call site =>
      cases hsite : site.target with
      | none => simp [controls, hsite] at hmem
      | some t =>
          refine ⟨site, t, rfl, hsite, ?_⟩
          rcases k with _ | _ | _ | _ | _ | k
          case succ.succ.succ.zero => rfl
          all_goals cases h
  | _ => simp [controls] at hmem

/-- What the operation before a jump pushes is the address of the jump's target. -/
theorem address_of_push (h : Faithful literal code) {place k a : Nat} {i : Instruction} {t : Nat} {v : Value}
    (hi : code[place]? = some i) (ht : i.target? = some t)
    (hop : (instructionOps (slotNames code) (address code) i)[k]? = some (.push (.ofIndex (address code t))))
    (hpush : (operations literal code)[address code place + k]? = some (.push v)) (hv : v.toIndex? = some a) :
    address code t = a := by
  have hlt : address code t < 2 ^ 53 := (h.target i (List.mem_of_getElem? hi) t ht).trans h.size
  have hk : k < width i := by
    rw [← length_instructionOps (slotNames code) (address code) i]
    exact (List.getElem?_eq_some_iff.1 hop).1
  rw [getElem?_operations literal hi hk, hop] at hpush
  cases hpush
  rw [h.index _ hlt, Value.toIndex?_ofIndex hlt] at hv
  exact Option.some.inj hv

/-- Jumps and calls among the operations go where those of the code go. -/
theorem target_of_isTarget (h : Faithful literal code) {a : Nat} (ha : IsTarget (operations literal code) a) :
    ∃ i ∈ code, ∃ t, i.target? = some t ∧ address code t = a := by
  obtain ⟨p, v, hpush, hv, hjump | hbranch | hcall⟩ := ha
  · obtain ⟨place, i, k, hi, hp, hk⟩ := exists_control hjump rfl
    obtain ⟨rfl, t, rfl⟩ := goto_of_controls hk
    obtain rfl : p = address code place + 0 := by omega
    exact ⟨_, List.mem_of_getElem? hi, t, rfl, address_of_push h hi rfl rfl hpush hv⟩
  · obtain ⟨place, i, k, hi, hp, hk⟩ := exists_control hbranch rfl
    obtain ⟨rfl, x, t, rfl⟩ := branch_of_controls hk
    obtain rfl : p = address code place + 0 := by omega
    exact ⟨_, List.mem_of_getElem? hi, t, rfl, address_of_push h hi rfl rfl hpush hv⟩
  · obtain ⟨place, i, k, hi, hp, hk⟩ := exists_control hcall rfl
    obtain ⟨site, t, hsite, htarget, rfl⟩ := call_of_controls hk
    obtain rfl : p = address code place + (i.binds?.toList.length + 1) := by omega
    have hi_target : i.target? = some t := by rw [Ir.target?_of_callSite? hsite, htarget]
    refine ⟨i, List.mem_of_getElem? hi, t, hi_target, address_of_push h hi hi_target ?_ hpush hv⟩
    rw [instructionOps_call hsite, List.getElem?_append_right (by simp), List.length_map, Nat.add_sub_cancel_left,
      callOps, htarget]
    rfl

end Targets

/-! ## Pushed parameters -/

section Pushed

variable {code : Code}

/-- Every parameter that is pushed has operations. -/
theorem length_le_of_scan {pushed pushed' : List (Option String)} (h : scan pushed code = some pushed') :
    pushed'.length ≤ pushed.length + (code.map width).sum := by
  induction code generalizing pushed with
  | nil => cases h; simp
  | cons i code ih =>
      rw [← List.singleton_append] at h
      obtain ⟨between, hfirst, hrest⟩ := Ir.exists_scan_of_append h
      rw [Ir.scan_singleton] at hfirst
      have hle := ih hrest
      have hone : between.length ≤ pushed.length + width i := by
        unfold Instruction.settle at hfirst
        split at hfirst
        · cases hfirst
          simp [width]
        · split at hfirst
          · split at hfirst
            · cases hfirst; simp
            · cases hfirst
          · split at hfirst
            · cases hfirst; simp
            · cases hfirst
      rw [List.map_cons, List.sum_cons]
      omega

theorem pending_lt {σ : Type} {s : State σ} (hs : Safe code s) (hsize : address code code.length < 2 ^ 53) :
    s.current.pending.length < 2 ^ 53 := by
  have hle := length_le_of_scan hs.pending
  rw [List.length_map, List.length_nil, Nat.zero_add, ← address_eq] at hle
  exact Nat.lt_of_le_of_lt (hle.trans (address_le_length code s.place)) hsize

/-- Between places of one address there are only blanks. -/
theorem scan_of_address_eq {place other : Nat} (hle : place ≤ other) (hother : other ≤ code.length)
    (haddress : address code place = address code other) (hscan : scan [] (code.take place) = some []) :
    scan [] (code.take other) = some [] := by
  induction other, hle using Nat.le_induction with
  | base => exact hscan
  | succ other hle ih =>
      have hmono := address_mono code hle
      have hlast := address_mono code (Nat.le_add_right other 1)
      have hscan' := ih (by omega) (by omega)
      have hi : code[other]? = some code[other] := List.getElem?_eq_getElem hother
      have hwidth : width code[other] = 0 := by
        have hnext := address_succ hi
        omega
      have hblank : code[other].isBlank = true := by
        by_contra hlive
        have := width_pos (Bool.eq_false_iff.2 hlive)
        omega
      rw [List.take_add_one, hi, Option.toList_some, Ir.scan_append hscan', Ir.scan_singleton]
      cases hj : code[other] with
      | blank => rfl
      | _ => rw [hj] at hblank; cases hblank

end Pushed

/-! ## From state to state -/

variable {σ : Type} [Streams σ]

section Ways

variable (literal : Value → Value) (code : Code)

/-- What stands on stacks for the return addresses of waiting calls. -/
def returnValues (callers : List (Nat × Activation)) : List Value :=
  callers.map fun (place, _) => .ofIndex (address code (place + 1) - 1)

/-- A machine on its way from a state of code to what the next step leads to. -/
structure Way (s : State σ) (t : Transition σ) (returns : List Nat) (m : Machine σ) : Prop where
  step : Ir.step literal code m.limit s = some t
  safe : t.IsSafe code
  simulates : Simulates literal code m.limit m t
  ops : m.ops = (operations literal code).toArray
  place : Inside code m.ip
    ∨ (Corresponds literal code s m ∧ Safe code s ∧ ∃ i, code[s.place]? = some i ∧ i.isBlank = false)
  depth : m.callers.length ≤ s.callers.length
  returns : returns.map Value.ofIndex = (returnValues code s.callers).drop (s.callers.length - m.callers.length)

end Ways

/-! Return addresses: `A` stands for those of the calls that wait at the start of an instruction, of which the machine may
have left the latest, and `B` for those at its end. -/

section Returns

variable {m m₁ : Machine σ} {returns : List Nat} {A B : List Value}

theorem map_returnsAfter_of_suffix (hstep : m.step = .more m₁) (hcallers : m₁.callers <:+ m.callers)
    (hA : m.callers.length ≤ A.length)
    (hreturns : returns.map Value.ofIndex = A.drop (A.length - m.callers.length)) :
    (m.returnsAfter returns).map Value.ofIndex = A.drop (A.length - m₁.callers.length) := by
  have hle := hcallers.length_le
  rw [Machine.returnsAfter]
  rcases Machine.callers_of_step hstep with ⟨-, -, f, hf⟩ | ⟨hop, f, hf⟩ | ⟨hcall, hret, hsame⟩
  · rw [hf, List.length_cons] at hle
    omega
  · rw [hop]
    dsimp only
    have hlength : m.callers.length = m₁.callers.length + 1 := by rw [hf, List.length_cons]
    rw [List.map_tail, hreturns, List.tail_drop]
    congr 1
    omega
  · rw [hsame]
    split
    · contradiction
    · contradiction
    · exact hreturns

theorem map_returnsAfter_of_last (hstep : m.step = .more m₁) (hA : m.callers.length ≤ A.length)
    (hreturns : returns.map Value.ofIndex = A.drop (A.length - m.callers.length))
    (hB : m₁.callers.length = B.length) (htail : B.tail <:+ A) (hsuffix : B.length ≤ A.length → B <:+ A)
    (hhead : ∀ v, m₁.frame.stack = [v] → m₁.callers ≠ [] → B.head? = some v) :
    (m.returnsAfter returns).map Value.ofIndex = B := by
  rw [Machine.returnsAfter]
  rcases Machine.callers_of_step hstep with ⟨hop, hstack, f, hf⟩ | ⟨hop, f, hf⟩ | ⟨hcall, hret, hsame⟩
  · rw [hop]
    dsimp only
    have hfirst := hhead _ hstack (by rw [hf]; exact List.cons_ne_nil _ _)
    cases B with
    | nil => cases hfirst
    | cons v B =>
        cases hfirst
        rw [hf, List.length_cons, List.length_cons] at hB
        have hdrop : B = A.drop (A.length - B.length) := List.suffix_iff_eq_drop.1 htail
        rw [List.map_cons, hreturns, Nat.succ.inj hB, ← hdrop]
  · rw [hop]
    dsimp only
    have hlength : m.callers.length = m₁.callers.length + 1 := by rw [hf, List.length_cons]
    rw [List.map_tail, hreturns, List.tail_drop, List.suffix_iff_eq_drop.1 (hsuffix (by omega))]
    congr 1
    omega
  · rw [hsame] at hB
    have hall : returns.map Value.ofIndex = B := by
      rw [hreturns, List.suffix_iff_eq_drop.1 (hsuffix (by omega)), hB]
    split
    · contradiction
    · contradiction
    · exact hall

end Returns

section Ways

variable {literal : Value → Value} {code : Code}

/-- From a state, possibly at blanks, a machine is on its way. -/
theorem exists_way (h : Faithful literal code) (hcode : Balanced code) {s : State σ} {m : Machine σ} {returns : List Nat}
    (hm : Corresponds literal code s m) (hs : Safe code s)
    (hreturns : returns.map Value.ofIndex = returnValues code s.callers) : ∃ s t, Way literal code s t returns m := by
  obtain ⟨i, hi⟩ : ∃ i, code[s.place]? = some i := ⟨_, List.getElem?_eq_getElem hs.place⟩
  by_cases hblank : i.isBlank = true
  · have hi' : code[s.place]? = some .blank := by
      cases i with
      | blank => exact hi
      | _ => cases hblank
    exact exists_way h hcode (hm.blank hi') (hs.next hcode hi' nofun rfl nofun) hreturns
  · obtain ⟨t, hstep, hsafe⟩ : ∃ t, Ir.step literal code m.limit s = some t ∧ t.IsSafe code := hs.step hcode
    have hlive : code[s.place]? ≠ some .blank := by
      intro hi'
      rw [hi] at hi'
      cases hi'
      exact hblank rfl
    have hlength : m.callers.length = s.callers.length := hm.callers.length_eq.symm
    refine ⟨s, t, hstep, hsafe, simulates_step h hm hlive (pending_lt hs h.size) hstep, hm.ops,
      .inr ⟨hm, hs, i, hi, by simpa using hblank⟩, hlength.le, ?_⟩
    rw [hlength, Nat.sub_self, List.drop_zero, hreturns]
termination_by code.length - s.place
decreasing_by
  have := hs.place
  simp only [State.next]
  omega

theorem length_pairStack (pairs : List (Value × Value)) : (FrameM.pairStack pairs).length = 2 * pairs.length := by
  induction pairs with
  | nil => rfl
  | cons pair pairs ih =>
      rw [FrameM.pairStack, List.flatMap_cons, List.length_append, ← FrameM.pairStack, ih]
      simp only [List.length_cons, List.length_nil]
      omega

omit [Streams σ] in
/-- A single value on the stack of a function is the address to return to. -/
theorem Corresponds.head?_returnValues {s : State σ} {m : Machine σ} (hm : Corresponds literal code s m) {v : Value}
    (hv : m.frame.stack = [v]) (hne : m.callers ≠ []) : (returnValues code s.callers).head? = some v := by
  have hlength := hm.callers.length_eq
  have hstack := hm.frame.stack
  rw [hv, List.nil_append] at hstack
  cases hcallers : s.callers with
  | nil =>
      rw [hcallers, List.length_nil] at hlength
      exact absurd (List.length_eq_zero_iff.1 hlength.symm) hne
  | cons waiting callers =>
      rw [hcallers, returnStack] at hstack
      have hcount := congrArg List.length hstack
      rw [List.length_append, length_pairStack, List.length_singleton, List.length_singleton] at hcount
      have hnone : FrameM.pairStack (parameterPairs literal (slotNames code) s.current.pending) = [] := by
        rw [← List.length_eq_zero_iff, length_pairStack]
        omega
      rw [hnone, List.nil_append] at hstack
      exact congrArg List.head? hstack.symm

/-- A machine on its way stays on it or, having reached its end, is on the way from there. -/
theorem Way.next (h : Faithful literal code) (hcode : Balanced code) {s : State σ} {t : Transition σ} {returns : List Nat}
    {m m₁ : Machine σ} (way : Way literal code s t returns m) (hstep : m.step = .more m₁) :
    ∃ s t, Way literal code s t (m.returnsAfter returns) m₁ := by
  have hlength : (returnValues code s.callers).length = s.callers.length := List.length_map _
  have hdepth : m.callers.length ≤ (returnValues code s.callers).length := hlength.symm ▸ way.depth
  have hreturns : returns.map Value.ofIndex
      = (returnValues code s.callers).drop ((returnValues code s.callers).length - m.callers.length) :=
    hlength.symm ▸ way.returns
  obtain ⟨hops, hlimit, -⟩ := Machine.kept_of_step hstep
  obtain ⟨n, m', hwalk, hlast⟩ := way.simulates
  cases hwalk with
  | head hfirst hin hcallers hrest =>
      rw [hstep] at hfirst
      cases hfirst
      refine ⟨s, t, hlimit.symm ▸ way.step, way.safe, ⟨_, m', hrest, hlimit.symm ▸ hlast⟩, hops.trans way.ops, .inl hin,
        hcallers.length_le.trans way.depth, ?_⟩
      rw [map_returnsAfter_of_suffix hstep hcallers hdepth hreturns, hlength]
  | refl =>
      rw [hstep] at hlast
      have hstep' := way.step
      have hsafe := way.safe
      cases t with
      | done console outcome => exact absurd hlast id
      | more s' =>
          obtain ⟨hm, -⟩ := hlast
          refine exists_way h hcode hm hsafe (map_returnsAfter_of_last hstep hdepth hreturns ?_ ?_ ?_ ?_)
          · rw [returnValues, List.length_map, hm.callers.length_eq]
          · rcases Ir.callers_of_step hstep' with hsame | ⟨waiting, henter⟩ | ⟨waiting, hleave⟩
            · rw [hsame]
              exact List.tail_suffix _
            · rw [henter]
              exact List.suffix_rfl
            · rw [hleave]
              exact (List.tail_suffix _).trans (List.suffix_cons _ _)
          · intro hle
            rcases Ir.callers_of_step hstep' with hsame | ⟨waiting, henter⟩ | ⟨waiting, hleave⟩
            · rw [hsame]
            · rw [henter, returnValues, returnValues, List.length_map, List.length_map, List.length_cons] at hle
              omega
            · rw [hleave]
              exact List.suffix_cons _ _
          · intro v hv hne
            exact hm.head?_returnValues hv hne

theorem Way.ip_lt {s : State σ} {t : Transition σ} {returns : List Nat} {m : Machine σ}
    (way : Way literal code s t returns m) : m.ip < m.ops.size := by
  rw [way.ops, List.size_toArray, length_operations]
  rcases way.place with ⟨place, -, hlt⟩ | ⟨hm, -, i, hi, hlive⟩
  · exact Nat.lt_of_lt_of_le hlt (address_le_length code (place + 1))
  · have hnext := address_succ hi
    have hwidth := width_pos hlive
    have hle := address_le_length code (s.place + 1)
    rw [hm.ip]
    omega

theorem Way.proper {s : State σ} {t : Transition σ} {returns : List Nat} {m : Machine σ}
    (way : Way literal code s t returns m) : m.Proper := by
  obtain ⟨n, m', hwalk, hlast⟩ := way.simulates
  have hsafe := way.safe
  rw [Machine.Proper]
  cases hwalk with
  | head hfirst hin hcallers hrest => rw [hfirst]; trivial
  | refl =>
      cases hstep : m.step with
      | more m₁ => trivial
      | done m₁ outcome =>
          rw [hstep] at hlast
          cases t with
          | more s' => exact absurd hlast id
          | done console outcome' =>
              obtain ⟨-, rfl⟩ := hlast
              cases outcome with
              | error e => exact hsafe
              | ok r =>
                  have hsome : m.ops[m.ip]? ≠ none := by simpa using way.ip_lt
                  rcases Machine.op_of_step_done hstep with hnone | ⟨hhalt, rfl⟩ | ⟨hret, hcallers, hr⟩
                  · exact absurd hnone hsome
                  · exact hhalt
                  · obtain ⟨v, rfl⟩ := Option.isSome_iff_exists.1 hr
                    exact ⟨hret, hcallers⟩

/-- Where a jump or a call leads, a state of code is reached. -/
theorem Way.corresponds (h : Faithful literal code) {s : State σ} {t : Transition σ} {returns : List Nat} {m : Machine σ}
    (way : Way literal code s t returns m) (htarget : IsTarget (operations literal code) m.ip) :
    Corresponds literal code s m ∧ Safe code s ∧ ∃ i, code[s.place]? = some i ∧ i.isBlank = false := by
  obtain ⟨i, hi, place, hplace, haddress⟩ := target_of_isTarget h htarget
  rcases way.place with hinside | hm
  · rw [← haddress] at hinside
    exact absurd hinside (not_inside_address code place)
  · exact hm

/-- Where a jump or a call leads, no parameter is pushed. -/
theorem Way.atRest (h : Faithful literal code) (hcode : Balanced code) {s : State σ} {t : Transition σ} {returns : List Nat}
    {m : Machine σ} (way : Way literal code s t returns m) (htarget : IsTarget (operations literal code) m.ip) :
    m.AtRest returns := by
  obtain ⟨i, hi, place, hplace, haddress⟩ := target_of_isTarget h htarget
  obtain ⟨hlt, hscan⟩ := hcode.target i hi place hplace
  obtain ⟨hm, hs, j, hj, hlive⟩ := way.corresponds h htarget
  rw [hm.ip] at haddress
  have hle : place ≤ s.place := by
    by_contra hlt
    have hmono := address_mono code (show s.place + 1 ≤ place by omega)
    have hnext := address_succ hj
    have hwidth := width_pos hlive
    omega
  have hpending : s.current.pending = [] := by
    have hnone := scan_of_address_eq hle hs.place.le haddress hscan
    rw [hs.pending] at hnone
    exact List.map_eq_nil_iff.1 (Option.some.inj hnone)
  have hlength : m.callers.length = s.callers.length := hm.callers.length_eq.symm
  have hreturns := way.returns
  rw [hlength, Nat.sub_self, List.drop_zero] at hreturns
  have hcount := congrArg List.length hreturns
  rw [List.length_map, returnValues, List.length_map] at hcount
  refine ⟨hlength.trans hcount.symm, ?_⟩
  rw [hm.frame.stack, hpending]
  cases hcallers : s.callers with
  | nil =>
      rw [hcallers] at hreturns
      rw [List.map_eq_nil_iff.1 hreturns]
      rfl
  | cons waiting callers =>
      rw [hcallers] at hreturns
      cases returns with
      | nil => cases hreturns
      | cons r returns => exact congrArg (· :: []) (List.cons.inj hreturns).1.symm

/-- A first operation that ends a run is a halt. -/
theorem Corresponds.frame_of_done {s : State σ} {m m' : Machine σ} {outcome : Outcome} (hm : Corresponds literal code s m)
    {i : Instruction} (hi : code[s.place]? = some i) (hlive : i.isBlank = false) (hstep : m.step = .done m' outcome) :
    m'.frame = m.frame ∧ m'.callers = m.callers := by
  have hself := hm.moved_self
  have hpush : ∀ op, control? op = none → m.ops[address code s.place]? ≠ some op := by
    intro op hop hget
    rw [← hself] at hstep
    cases op with
    | push v => rw [Machine.step_push hget] at hstep; cases hstep
    | pushSlot slot => rw [Machine.step_pushSlot hget] at hstep; cases hstep
    | _ => cases hop
  obtain ⟨op, hop⟩ : ∃ op, (instructionOps (slotNames code) (address code) i)[0]? = some op :=
    ⟨_, List.getElem?_eq_getElem (by rw [length_instructionOps]; exact width_pos hlive)⟩
  have hfetch : m.ops[address code s.place]? = some (op.mapLiteral literal) :=
    fetch 0 hm.ops hi (by rw [hop, Option.map_some])
  have hcontrol : (controls i)[0]? = some (control? (op.mapLiteral literal)) := by
    rw [← map_control?_instructionOps (slotNames code) (address code) i, List.getElem?_map, hop, Option.map_some,
      control?_mapLiteral]
  cases i with
  | stop =>
      have hhalt : m.ops[address code s.place]? = some .halt := fetch 0 hm.ops hi rfl
      have hframe := congrArg Machine.frame hself
      rw [← hself, Machine.step_halt hhalt] at hstep
      cases hstep
      exact ⟨hframe, rfl⟩
  | blank => cases hlive
  | assign x rhs => cases rhs <;> exact absurd hfetch (hpush _ (Option.some.inj hcontrol).symm)
  | _ => exact absurd hfetch (hpush _ (Option.some.inj hcontrol).symm)

/-- A machine that has stopped, or is on its way. -/
theorem reaches_way (h : Faithful literal code) (hcode : Balanced code) {limit : Nat} {console : σ}
    {returns : List Nat} {m : Machine σ} (hm : (Machine.ofOps (operations literal code) limit console).Reaches returns m) :
    (m.status = .running → ∃ s t, Way literal code s t returns m)
      ∧ (IsTarget (operations literal code) m.ip → m.AtRest returns) := by
  have hrest : ∀ {returns} {m : Machine σ}, (∃ s t, Way literal code s t returns m) → IsTarget (operations literal code) m.ip →
      m.AtRest returns := by
    rintro returns m ⟨s, t, way⟩ htarget
    exact way.atRest h hcode htarget
  induction hm with
  | start =>
      have hway : ∃ s t, Way literal code s t [] (.ofOps (operations literal code) limit console) :=
        exists_way h hcode (corresponds_initial literal code limit console) (Ir.safe_initial hcode console) rfl
      exact ⟨fun _ => hway, hrest hway⟩
  | more _ hrunning hstep ih =>
      obtain ⟨s, t, way⟩ := ih.1 hrunning
      have hway := way.next h hcode hstep
      exact ⟨fun _ => hway, hrest hway⟩
  | done _ hrunning hstep ih =>
      obtain ⟨hip, hstopped⟩ := Machine.stopped_of_step_done hstep
      refine ⟨fun hstatus => absurd hstatus hstopped, fun htarget => ?_⟩
      rw [hip] at htarget
      obtain ⟨s, t, way⟩ := ih.1 hrunning
      obtain ⟨hm, -, i, hi, hlive⟩ := way.corresponds h htarget
      obtain ⟨hframe, hcallers⟩ := hm.frame_of_done hi hlive hstep
      have hrests := way.atRest h hcode htarget
      exact ⟨(congrArg List.length hcallers).trans hrests.1, (congrArg Frame.stack hframe).trans hrests.2⟩

theorem stackSafe_of_balanced (h : Faithful literal code) (hcode : Balanced code) :
    StackSafe σ (operations literal code) := by
  refine ⟨fun limit console returns m hm hrunning => ?_, fun limit console returns m hm => (reaches_way h hcode hm).2⟩
  obtain ⟨s, t, way⟩ := (reaches_way h hcode hm).1 hrunning
  exact way.proper

end Ways

end Scriptlet.Bytecode
