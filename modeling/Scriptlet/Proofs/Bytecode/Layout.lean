import Mathlib.Tactic
import Scriptlet.Proofs.Bytecode.Image
import Scriptlet.Proofs.Bytecode.Linear

/-!
# The layout of operations

Where the operations of an instruction stand among those of all code, and which numbers the slots of names are.
-/

namespace Scriptlet.Bytecode

open Ir (Code Instruction)

/-! ## Addresses -/

@[simp]
theorem address_zero (code : Code) : address code 0 = 0 :=
  rfl

theorem address_cons_succ (i : Instruction) (code : Code) (place : Nat) :
    address (i :: code) (place + 1) = width i + address code place := by
  simp [address_eq]

theorem address_succ {code : Code} {place : Nat} {i : Instruction} (hi : code[place]? = some i) :
    address code (place + 1) = address code place + width i := by
  rw [address_eq, address_eq, List.take_add_one, hi, Option.toList_some, List.map_append, List.sum_append]
  rfl

theorem address_mono (code : Code) {place other : Nat} (h : place ≤ other) :
    address code place ≤ address code other := by
  induction code generalizing place other with
  | nil => simp [address_eq]
  | cons i code ih =>
      cases place with
      | zero => simp
      | succ place =>
          cases other with
          | zero => omega
          | succ other =>
              rw [address_cons_succ, address_cons_succ]
              exact Nat.add_le_add_left (ih (by omega)) _

theorem address_of_length_le {code : Code} {place : Nat} (h : code.length ≤ place) :
    address code place = address code code.length := by
  rw [address, address, List.take_of_length_le h, List.take_length]

theorem address_le_length (code : Code) (place : Nat) : address code place ≤ address code code.length := by
  rcases Nat.le_total place code.length with h | h
  · exact address_mono code h
  · exact (address_of_length_le h).le

/-- Addresses that are not the first of an instruction. -/
def Inside (code : Code) (ip : Nat) : Prop :=
  ∃ place, address code place < ip ∧ ip < address code (place + 1)

theorem inside_add {code : Code} {place : Nat} {i : Instruction} (k : Nat) (hi : code[place]? = some i)
    (hk : 0 < k ∧ k < width i) : Inside code (address code place + k) :=
  ⟨place, by omega, by rw [address_succ hi]; omega⟩

/-- The address of a place is the first of an instruction. -/
theorem not_inside_address (code : Code) (place : Nat) : ¬ Inside code (address code place) := by
  rintro ⟨other, hlow, hhigh⟩
  rcases Nat.lt_or_ge other place with h | h
  · have : address code (other + 1) ≤ address code place := address_mono code h
    omega
  · have := address_mono code h
    omega

/-! ## Operations -/

/-- The operations of code after what happened to their literals. -/
def operations (literal : Value → Value) (code : Code) : List Op :=
  (code.flatMap (instructionOps (slotNames code) (address code))).map (Op.mapLiteral literal)

theorem length_flatMap_width {f : Instruction → List Op} (hf : ∀ i, (f i).length = width i) (code : Code) :
    (code.flatMap f).length = address code code.length := by
  rw [address_eq, List.take_length, List.length_flatMap]
  congr 1
  exact List.map_congr_left fun i _ => hf i

@[simp]
theorem length_operations (literal : Value → Value) (code : Code) :
    (operations literal code).length = address code code.length := by
  rw [operations, List.length_map, length_flatMap_width (length_instructionOps _ _)]

theorem getElem?_flatMap_width {f : Instruction → List Op} (hf : ∀ i, (f i).length = width i) {code : Code}
    {place k : Nat} {i : Instruction} (hi : code[place]? = some i) (hk : k < width i) :
    (code.flatMap f)[address code place + k]? = (f i)[k]? := by
  induction code generalizing place with
  | nil => simp at hi
  | cons j code ih =>
      rw [List.flatMap_cons]
      cases place with
      | zero =>
          cases hi
          rw [address_zero, Nat.zero_add, List.getElem?_append_left (by rw [hf]; exact hk)]
      | succ place =>
          rw [address_cons_succ, Nat.add_assoc, List.getElem?_append_right (by rw [hf]; omega), hf,
            Nat.add_sub_cancel_left]
          exact ih hi

/-- The operations of an instruction stand one after the other from its address on. -/
theorem getElem?_operations (literal : Value → Value) {code : Code} {place k : Nat} {i : Instruction}
    (hi : code[place]? = some i) (hk : k < width i) :
    (operations literal code)[address code place + k]?
      = (instructionOps (slotNames code) (address code) i)[k]?.map (Op.mapLiteral literal) := by
  rw [operations, List.getElem?_map, getElem?_flatMap_width (length_instructionOps _ _) hi hk]

/-! ## Slots -/

theorem mem_slotNames {code : Code} {i : Instruction} {x : String} (hi : i ∈ code) (hx : i.binds? = some x) :
    x ∈ slotNames code := by
  rw [slotNames, List.mem_eraseDups]
  exact List.mem_filterMap.2 ⟨i, hi, hx⟩

theorem length_eraseDups_le (names : List String) : names.eraseDups.length ≤ names.length := by
  match names with
  | [] => simp
  | x :: names =>
      have hfilter : (names.filter fun y => !y == x).length ≤ names.length := List.length_filter_le _ _
      rw [List.eraseDups_cons, List.length_cons, List.length_cons]
      exact Nat.succ_le_succ ((length_eraseDups_le _).trans hfilter)
termination_by names.length
decreasing_by
  rw [List.length_cons]
  omega

/-- There are at most as many slots as operations, since an instruction that binds a name has an operation. -/
theorem length_slotNames_le (code : Code) : (slotNames code).length ≤ address code code.length := by
  have hbinds : (code.filterMap Instruction.binds?).length ≤ address code code.length := by
    induction code with
    | nil => simp
    | cons i code ih =>
        rw [List.length_cons, address_cons_succ]
        cases hx : i.binds? with
        | none =>
            rw [List.filterMap_cons_none hx]
            omega
        | some x =>
            have hwidth : 0 < width i := by
              cases i with
              | assign y rhs => cases rhs <;> simp [width]
              | param y name => simp [width]
              | _ => cases hx
            rw [List.filterMap_cons_some hx, List.length_cons]
            omega
  exact (length_eraseDups_le _).trans hbinds

theorem idxOf_slotNames_lt {code : Code} {x : String} (hx : x ∈ slotNames code) :
    (slotNames code).idxOf x < address code code.length :=
  Nat.lt_of_lt_of_le (List.idxOf_lt_length_iff.2 hx) (length_slotNames_le code)

theorem idxOf?_of_mem {slots : List String} {x : String} (hx : x ∈ slots) :
    slots.idxOf? x = some (slots.idxOf x) := by
  rw [List.idxOf?, List.findIdx?_eq_some_iff_findIdx_eq]
  exact ⟨List.idxOf_lt_length_iff.2 hx, rfl⟩

end Scriptlet.Bytecode
