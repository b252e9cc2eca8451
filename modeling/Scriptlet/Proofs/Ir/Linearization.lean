import Mathlib.Tactic
import Scriptlet.Proofs.Bytecode.Linear

/-!
# When code can be made linear

Code can be made linear if behind every target there is an instruction that is kept.
-/

namespace Scriptlet.Ir

namespace Instruction

@[simp]
theorem target?_mapTarget (f : Nat → Nat) (i : Instruction) : (i.mapTarget f).target? = i.target?.map f := by
  cases i with
  | assign x rhs => cases rhs <;> rfl
  | _ => rfl

@[simp]
theorem isBlank_mapTarget (f : Nat → Nat) (i : Instruction) : (i.mapTarget f).isBlank = i.isBlank := by
  cases i with
  | assign x rhs => cases rhs <;> rfl
  | _ => rfl

/-- What is wrong with an instruction at a place in code of some size. -/
inductive Offends (size place : Nat) : Instruction → LinearError → Prop
  | blank : Offends size place .blank (.blankRemains place)
  | dangling {i : Instruction} {t : Nat} : i.target? = some t → size ≤ t →
      Offends size place i (.danglingTarget place t)

end Instruction

namespace Code

/-- The error is that of the first instruction at fault. -/
def FirstOffence (code : Code) (e : LinearError) : Prop :=
  ∃ before i rest, code = before ++ i :: rest ∧ i.Offends code.length before.length e
    ∧ TargetsBelow code.length before ∧ ∀ k ∈ before, k.isBlank = false

theorem offends_of_validateFrom {size id : Nat} {code : Code} {e : LinearError}
    (h : validateFrom size id code = .error e) :
    ∃ before i rest, code = before ++ i :: rest ∧ i.Offends size (id + before.length) e
      ∧ TargetsBelow size before ∧ ∀ k ∈ before, k.isBlank = false := by
  induction code generalizing id with
  | nil => cases h
  | cons i code ih =>
      rw [validateFrom] at h
      cases hblank : i.isBlank with
      | true =>
          rw [hblank] at h
          cases h
          have hi : i = .blank := by cases i <;> first | rfl | cases hblank
          exact ⟨[], i, code, rfl, hi ▸ .blank, by simp [TargetsBelow], by simp⟩
      | false =>
          rw [hblank] at h
          -- an instruction that is not at fault goes before the one that is
          have hlater : (∀ t, i.target? = some t → t < size) → validateFrom size (id + 1) code = .error e →
              ∃ before k rest, i :: code = before ++ k :: rest ∧ k.Offends size (id + before.length) e
                ∧ TargetsBelow size before ∧ ∀ k ∈ before, k.isBlank = false := by
            intro hi hrest
            obtain ⟨before, k, rest, rfl, hk, hbelow, hlive⟩ := ih hrest
            refine ⟨i :: before, k, rest, rfl, ?_, TargetsBelow.cons_iff.2 ⟨hi, hbelow⟩,
              List.forall_mem_cons.2 ⟨hblank, hlive⟩⟩
            rw [List.length_cons, Nat.add_comm before.length, ← Nat.add_assoc]
            exact hk
          cases ht : i.target? with
          | none =>
              rw [ht] at h
              exact hlater (by simp [ht]) h
          | some t =>
              rw [ht] at h
              by_cases hlt : t < size
              · simp only [Bool.false_eq_true, if_false, if_pos hlt] at h
                exact hlater (by simp [ht, hlt]) h
              · simp only [Bool.false_eq_true, if_false, if_neg hlt] at h
                cases h
                exact ⟨[], i, code, rfl, .dangling ht (Nat.le_of_not_lt hlt), by simp [TargetsBelow], by simp⟩

theorem firstOffence_of_validate {code : Code} {e : LinearError} (h : code.validate = .error e) : code.FirstOffence e := by
  obtain ⟨before, i, rest, hcode, hi, hbefore⟩ := offends_of_validateFrom h
  rw [Nat.zero_add] at hi
  exact ⟨before, i, rest, hcode, hi, hbefore⟩

/-- Code without its blanks, with its targets moved. -/
def relocated (f : Nat → Nat) (code : Code) : Code :=
  (code.filter Instruction.live).map (Instruction.mapTarget f)

theorem relocated_append (f : Nat → Nat) (code code' : Code) :
    relocated f (code ++ code') = relocated f code ++ relocated f code' := by
  rw [relocated, List.filter_append, List.map_append]
  rfl

theorem length_relocated (f : Nat → Nat) (code : Code) : (relocated f code).length = code.countP Instruction.live := by
  rw [relocated, List.length_map, List.countP_eq_length_filter]

theorem mem_relocated {f : Nat → Nat} {code : Code} {i : Instruction} :
    i ∈ relocated f code ↔ ∃ k ∈ code, k.live = true ∧ k.mapTarget f = i := by
  simp [relocated, and_assoc]

theorem TargetsBelow.append {size : Nat} {code code' : Code} (h : TargetsBelow size code) (h' : TargetsBelow size code') :
    TargetsBelow size (code ++ code') :=
  fun i hi => (List.mem_append.1 hi).elim (h i) (h' i)

theorem validateFrom_of_targetsBelow {size : Nat} {code : Code} (h : TargetsBelow size code)
    (hlive : ∀ i ∈ code, i.isBlank = false) (id : Nat) : validateFrom size id code = .ok () := by
  induction code generalizing id with
  | nil => rfl
  | cons i code ih =>
      rw [TargetsBelow.cons_iff] at h
      rw [List.forall_mem_cons] at hlive
      have hrest := ih h.2 hlive.2 (id + 1)
      rw [validateFrom, hlive.1]
      cases ht : i.target? with
      | none => exact hrest
      | some t => simp [h.1 t ht, hrest]

theorem relocateFrom_of_targetsBelow {code rest : Code} (h : TargetsBelow code.length rest) (id : Nat) :
    relocateFrom code id rest = .ok (rest.relocated code.liveBefore) := by
  induction rest generalizing id with
  | nil => rfl
  | cons i rest ih =>
      rw [TargetsBelow.cons_iff] at h
      rw [relocateFrom]
      cases hblank : i.isBlank with
      | true => simp [ih h.2, relocated, Instruction.live, hblank]
      | false =>
          cases ht : i.target? with
          | none =>
              simp [ih h.2, relocated, Instruction.live, hblank, Instruction.mapTarget_of_target?_eq_none _ ht]
          | some t => simp [h.1 t ht, ih h.2, relocated, Instruction.live, hblank]

theorem countP_live (code : Code) (place : Nat) :
    code.countP Instruction.live = code.liveBefore place + (code.drop place).countP Instruction.live := by
  conv => lhs; rw [← List.take_append_drop place code, List.countP_append]
  rfl

theorem liveBefore_lt {code : Code} {place : Nat} (h : ∃ k ∈ code.drop place, k.live = true) :
    code.liveBefore place < code.countP Instruction.live := by
  have hafter : 0 < (code.drop place).countP Instruction.live := List.countP_pos_iff.2 h
  have hall := countP_live code place
  omega

theorem linearize_of_targets {code : Code}
    (h : ∀ i ∈ code, ∀ t, i.target? = some t → ∃ k ∈ code.drop t, k.live = true) :
    code.linearize = .ok (code.relocated code.liveBefore) ∧ (code.relocated code.liveBefore).validate = .ok () := by
  have hbelow : TargetsBelow code.length code := by
    intro i hi t ht
    obtain ⟨k, hk, -⟩ := h i hi t ht
    have hpos := List.length_pos_of_mem hk
    rw [List.length_drop] at hpos
    omega
  have hvalid : (code.relocated code.liveBefore).validate = .ok () := by
    refine validateFrom_of_targetsBelow ?_ ?_ 0
    · intro i hi t ht
      obtain ⟨k, hk, -, rfl⟩ := mem_relocated.1 hi
      rw [Instruction.target?_mapTarget, Option.map_eq_some_iff] at ht
      obtain ⟨t, hkt, rfl⟩ := ht
      rw [length_relocated]
      exact liveBefore_lt (h k hk t hkt)
    · intro i hi
      obtain ⟨k, -, hlive, rfl⟩ := mem_relocated.1 hi
      simpa [Instruction.live] using hlive
  refine ⟨?_, hvalid⟩
  rw [linearize, relocateFrom_of_targetsBelow hbelow]
  simp [bind, Except.bind, hvalid, pure, Except.pure]

/-! ## Places -/

theorem liveBefore_mono (code : Code) : Monotone code.liveBefore := by
  intro place place' hle
  obtain ⟨before, hbefore⟩ := List.take_prefix_take_left (l := code) hle
  rw [liveBefore, liveBefore, ← hbefore, List.countP_append]
  exact Nat.le_add_right _ _

/-- An instruction that is kept stands where as many kept instructions are before it. -/
theorem getElem?_relocated (f : Nat → Nat) {code : Code} {place : Nat} {i : Instruction} (hi : code[place]? = some i)
    (hlive : i.live = true) : (code.relocated f)[code.liveBefore place]? = some (i.mapTarget f) := by
  obtain ⟨hlt, rfl⟩ := List.getElem?_eq_some_iff.1 hi
  have hsplit : code = code.take place ++ code[place] :: code.drop (place + 1) := by simp
  have hlength : (relocated f (code.take place)).length = code.liveBefore place := length_relocated f _
  conv => lhs; arg 1; rw [hsplit]
  rw [relocated_append, List.getElem?_append_right hlength.le, hlength, Nat.sub_self, relocated,
    List.filter_cons_of_pos hlive]
  rfl

theorem exists_of_getElem?_relocated {f : Nat → Nat} {code : Code} {n : Nat} {kept : Instruction}
    (h : (code.relocated f)[n]? = some kept) :
    ∃ place i, code[place]? = some i ∧ i.live = true ∧ code.liveBefore place = n ∧ i.mapTarget f = kept := by
  induction code generalizing n with
  | nil => cases h
  | cons i code ih =>
      -- what stands in the rest of the code stands one place further on in all of it
      have hlater : ∀ m, (relocated f code)[m]? = some kept → n = [i].countP Instruction.live + m →
          ∃ place j, (i :: code)[place]? = some j ∧ j.live = true ∧ liveBefore (i :: code) place = n
            ∧ j.mapTarget f = kept := by
        rintro m hm rfl
        obtain ⟨place, j, hj, hlive, rfl, hkept⟩ := ih hm
        refine ⟨place + 1, j, hj, hlive, ?_, hkept⟩
        rw [liveBefore, List.take_succ_cons, ← List.singleton_append, List.countP_append]
        rfl
      cases hlive : i.live with
      | false =>
          rw [relocated, List.filter_cons_of_neg (by simp [hlive])] at h
          exact hlater n h (by simp [hlive])
      | true =>
          rw [relocated, List.filter_cons_of_pos hlive, List.map_cons] at h
          cases n with
          | zero => exact ⟨0, i, rfl, hlive, rfl, Option.some.inj h⟩
          | succ n => exact hlater n h (by simp [hlive, Nat.add_comm])

end Code

end Scriptlet.Ir
