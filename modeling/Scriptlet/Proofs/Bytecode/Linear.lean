import Mathlib.Tactic
import Scriptlet.Bytecode.Lower
import Scriptlet.Ir.Linear

/-!
# Lowering and blanks

Blanks have no operations, so dropping them changes neither the slots nor the addresses nor the operations of code.
Code and its linear form are lowered to the same operations.
-/

namespace Scriptlet

open Ir (Code Instruction CallSite)

namespace Ir

/-! ## Targets -/

namespace Instruction

/-- Instructions that are kept when code is made linear. -/
def live (i : Instruction) : Bool :=
  !i.isBlank

@[simp]
theorem binds?_mapTarget (f : Nat → Nat) (i : Instruction) : (i.mapTarget f).binds? = i.binds? := by
  cases i with
  | assign x rhs => cases rhs <;> rfl
  | _ => rfl

theorem mapTarget_of_target?_eq_none (f : Nat → Nat) {i : Instruction} (h : i.target? = none) :
    i.mapTarget f = i := by
  cases i with
  | goto t => cases h
  | branch x t => cases h
  | assign x rhs =>
      cases rhs with
      | call site =>
          obtain ⟨callee, argc, target⟩ := site
          cases h; rfl
      | _ => rfl
  | call site =>
      obtain ⟨callee, argc, target⟩ := site
      cases h; rfl
  | _ => rfl

theorem target?_of_isBlank {i : Instruction} (h : i.isBlank = true) : i.target? = none := by
  cases i <;> first | rfl | cases h

end Instruction

namespace Code

/-- Every target is below a bound. -/
def TargetsBelow (size : Nat) (code : Code) : Prop :=
  ∀ i ∈ code, ∀ t, i.target? = some t → t < size

theorem TargetsBelow.cons_iff {size : Nat} {i : Instruction} {code : Code} :
    TargetsBelow size (i :: code) ↔ (∀ t, i.target? = some t → t < size) ∧ TargetsBelow size code := by
  simp [TargetsBelow]

theorem targetsBelow_of_validateFrom {size id : Nat} {code : Code} (h : validateFrom size id code = .ok ()) :
    TargetsBelow size code ∧ ∀ i ∈ code, i.isBlank = false := by
  induction code generalizing id with
  | nil => simp [TargetsBelow]
  | cons i code ih =>
      rw [validateFrom] at h
      split at h
      · cases h
      · rename_i hblank
        rw [TargetsBelow.cons_iff, List.forall_mem_cons]
        split at h
        · rename_i t ht
          split at h
          · obtain ⟨hbelow, hlive⟩ := ih h
            refine ⟨⟨?_, hbelow⟩, by simpa using hblank, hlive⟩
            intro t' ht'
            rw [ht] at ht'; cases ht'; assumption
          · cases h
        · rename_i ht
          obtain ⟨hbelow, hlive⟩ := ih h
          refine ⟨⟨?_, hbelow⟩, by simpa using hblank, hlive⟩
          intro t' ht'
          rw [ht] at ht'; cases ht'

/-- Relocation drops the blanks and moves all targets, which are places in the code. -/
theorem relocateFrom_eq {code rest linear : Code} {id : Nat} (h : relocateFrom code id rest = .ok linear) :
    linear = (rest.filter Instruction.live).map (Instruction.mapTarget (liveBefore code))
      ∧ TargetsBelow code.length rest := by
  induction rest generalizing id linear with
  | nil => cases h; simp [TargetsBelow]
  | cons i rest ih =>
      rw [relocateFrom] at h
      rw [TargetsBelow.cons_iff]
      split at h
      · rename_i hblank
        obtain ⟨rfl, hbelow⟩ := ih h
        refine ⟨by simp [Instruction.live, hblank], ?_, hbelow⟩
        simp [Instruction.target?_of_isBlank hblank]
      · rename_i hblank
        have hlive : i.live = true := by simpa [Instruction.live] using hblank
        split at h
        · rename_i t ht
          split at h
          · rename_i hlt
            cases hrest : relocateFrom code (id + 1) rest with
            | error e => rw [hrest] at h; cases h
            | ok tail =>
                rw [hrest] at h
                cases h
                obtain ⟨rfl, hbelow⟩ := ih hrest
                refine ⟨by simp [hlive], ?_, hbelow⟩
                intro t' ht'
                rw [ht] at ht'; cases ht'; exact hlt
          · cases h
        · rename_i ht
          cases hrest : relocateFrom code (id + 1) rest with
          | error e => rw [hrest] at h; cases h
          | ok tail =>
              rw [hrest] at h
              cases h
              obtain ⟨rfl, hbelow⟩ := ih hrest
              refine ⟨by simp [hlive, Instruction.mapTarget_of_target?_eq_none _ ht], ?_, hbelow⟩
              intro t' ht'
              rw [ht] at ht'; cases ht'

theorem linearize_eq {code linear : Code} (h : code.linearize = .ok linear) :
    linear = (code.filter Instruction.live).map (Instruction.mapTarget (liveBefore code))
      ∧ TargetsBelow code.length code ∧ TargetsBelow linear.length linear := by
  rw [linearize] at h
  cases hrel : relocateFrom code 0 code with
  | error e => rw [hrel] at h; cases h
  | ok out =>
      rw [hrel] at h
      simp only [bind, Except.bind] at h
      cases hval : validate out with
      | error e => rw [hval] at h; cases h
      | ok _ =>
          rw [hval] at h
          cases h
          obtain ⟨hlin, hbelow⟩ := relocateFrom_eq hrel
          exact ⟨hlin, hbelow, (targetsBelow_of_validateFrom hval).1⟩

end Code

end Ir

namespace Bytecode

open Ir.Code (liveBefore TargetsBelow)

/-! ## Widths and addresses -/

@[simp]
theorem width_mapTarget (f : Nat → Nat) (i : Instruction) : width (i.mapTarget f) = width i := by
  cases i with
  | assign x rhs => cases rhs <;> rfl
  | _ => rfl

/-- Moving the targets comes to the same as looking up addresses elsewhere. -/
theorem instructionOps_mapTarget (slots : List String) (address : Nat → Nat) (f : Nat → Nat) (i : Instruction) :
    instructionOps slots address (i.mapTarget f) = instructionOps slots (address ∘ f) i := by
  cases i with
  | assign x rhs =>
      cases rhs with
      | call site => cases h : site.target <;> simp [instructionOps, Instruction.mapTarget, callOps, h]
      | _ => rfl
  | param x name => cases name <;> rfl
  | call site => cases h : site.target <;> simp [instructionOps, Instruction.mapTarget, callOps, h]
  | _ => rfl

theorem width_of_not_live {i : Instruction} (h : i.live = false) : width i = 0 := by
  cases i <;> first | rfl | cases h

theorem instructionOps_of_not_live (slots : List String) (address : Nat → Nat) {i : Instruction}
    (h : i.live = false) : instructionOps slots address i = [] := by
  cases i <;> first | rfl | cases h

theorem sum_width_filter_live (code : Code) :
    ((code.filter Instruction.live).map width).sum = (code.map width).sum := by
  induction code with
  | nil => rfl
  | cons i code ih =>
      cases h : i.live with
      | true => simp [h, ih]
      | false => simp [h, ih, width_of_not_live h]

theorem take_filter_live (code : Code) (place : Nat) :
    (code.filter Instruction.live).take (liveBefore code place) = (code.take place).filter Instruction.live := by
  have hcount : liveBefore code place = ((code.take place).filter Instruction.live).length := by
    rw [← List.countP_eq_length_filter]; rfl
  conv => lhs; rw [← List.take_append_drop place code, List.filter_append]
  rw [List.take_append_drop, hcount, List.take_left]

theorem address_eq (code : Code) (place : Nat) : address code place = ((code.take place).map width).sum :=
  List.sum_eq_foldr.symm

/-- The address of a place does not change when the blanks are dropped. -/
theorem address_linear (code : Code) (place : Nat) :
    address ((code.filter Instruction.live).map (Instruction.mapTarget (liveBefore code)))
      (liveBefore code place) = address code place := by
  have hwidth : width ∘ Instruction.mapTarget (liveBefore code) = width := by
    funext i; simp
  rw [address_eq, ← List.map_take, List.map_map, hwidth, take_filter_live, sum_width_filter_live, address_eq]

/-! ## Operations -/

theorem unresolvedFrom_eq_none_iff {size op : Nat} {code : Code} :
    unresolvedFrom size op code = none ↔ TargetsBelow size code := by
  induction code generalizing op with
  | nil => simp [unresolvedFrom, TargetsBelow]
  | cons i code ih =>
      rw [unresolvedFrom, TargetsBelow.cons_iff]
      cases ht : i.target? with
      | none => simp [ih]
      | some t =>
          by_cases hlt : t < size
          · simp [hlt, ih]
          · simp [hlt]

theorem lower_eq_ok_iff {code : Code} {ops : List Op} :
    lower code = .ok ops ↔ TargetsBelow code.length code
      ∧ ops = code.flatMap (instructionOps (slotNames code) (address code)) := by
  rw [← @unresolvedFrom_eq_none_iff _ 0, lower]
  cases h : unresolvedFrom code.length 0 code with
  | some e => simp
  | none => simp [eq_comm]

theorem filterMap_binds?_live (code : Code) :
    (code.filter Instruction.live).filterMap Instruction.binds? = code.filterMap Instruction.binds? := by
  induction code with
  | nil => rfl
  | cons i code ih =>
      cases h : i.live with
      | true => simp [h, List.filterMap_cons, ih]
      | false =>
          have hbinds : i.binds? = none := by
            cases i <;> first | rfl | cases h
          simp [h, hbinds, ih]

theorem slotNames_linear (code : Code) :
    slotNames ((code.filter Instruction.live).map (Instruction.mapTarget (liveBefore code)))
      = slotNames code := by
  have hbinds : Instruction.binds? ∘ Instruction.mapTarget (liveBefore code) = Instruction.binds? := by
    funext i; simp
  rw [slotNames, List.filterMap_map, hbinds, filterMap_binds?_live, slotNames]

/-- Code and its linear form have the same operations. -/
theorem lower_linearize {code linear : Code} (h : code.linearize = .ok linear) : lower linear = lower code := by
  obtain ⟨hlin, hcode, hlinear⟩ := Ir.Code.linearize_eq h
  have hops : linear.flatMap (instructionOps (slotNames linear) (address linear))
      = code.flatMap (instructionOps (slotNames code) (address code)) := by
    have haddr : address linear ∘ liveBefore code = address code := by
      funext place
      rw [hlin]; exact address_linear code place
    have hslots : slotNames linear = slotNames code := by rw [hlin]; exact slotNames_linear code
    conv => lhs; rw [hlin]
    rw [List.flatMap_map, ← hlin, hslots]
    simp only [instructionOps_mapTarget, haddr]
    generalize address code = a
    generalize slotNames code = slots
    clear hlin hcode h haddr hslots
    induction code with
    | nil => rfl
    | cons i code ih =>
        cases hi : i.live with
        | true => simp [hi, ih]
        | false => simp [hi, ih, instructionOps_of_not_live slots a hi]
  rw [lower_eq_ok_iff.mpr ⟨hcode, rfl⟩, lower_eq_ok_iff.mpr ⟨hlinear, rfl⟩, hops]

/-- Lowering does not see whether code was made linear. Both forms have operations, the same ones, and the same slots, and
every place has the address that it has after its blanks are gone. -/
theorem lower_before_linearize {code linear : Code} (h : code.linearize = .ok linear) :
    (∃ ops, lower code = .ok ops ∧ lower linear = .ok ops) ∧ slotNames code = slotNames linear
      ∧ ∀ place, address code place = address linear (liveBefore code place) := by
  obtain ⟨hlin, hcode, -⟩ := Ir.Code.linearize_eq h
  have hops := lower_eq_ok_iff.2 ⟨hcode, rfl⟩
  refine ⟨⟨_, hops, (lower_linearize h).trans hops⟩, ?_, fun place => ?_⟩
  · rw [hlin, slotNames_linear]
  · rw [hlin, address_linear]

/-- A jump into a run of blanks, and a call of what is behind a blank at the start. -/
theorem lower_before_linearize_blanks :
    Code.linearize [.blank, .goto 2, .blank, .blank, .assign "x" (.call ⟨"f", 0, some 0⟩), .blank, .stop]
        = .ok [.goto 1, .assign "x" (.call ⟨"f", 0, some 0⟩), .stop]
      ∧ ∃ ops, lower [.blank, .goto 2, .blank, .blank, .assign "x" (.call ⟨"f", 0, some 0⟩), .blank, .stop] = .ok ops
        ∧ lower [.goto 1, .assign "x" (.call ⟨"f", 0, some 0⟩), .stop] = .ok ops :=
  have hlinear : Code.linearize [.blank, .goto 2, .blank, .blank, .assign "x" (.call ⟨"f", 0, some 0⟩), .blank, .stop]
      = .ok [.goto 1, .assign "x" (.call ⟨"f", 0, some 0⟩), .stop] := rfl
  ⟨hlinear, (lower_before_linearize hlinear).1⟩

end Bytecode

end Scriptlet
