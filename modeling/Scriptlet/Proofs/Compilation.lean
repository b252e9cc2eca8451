import Mathlib.Tactic
import Scriptlet.Pipeline
import Scriptlet.Proofs.Bytecode.Safety
import Scriptlet.Proofs.Ir.GeneratedBalance
import Scriptlet.Proofs.Token.Lexemes

/-!
# What a source is compiled to

The operations of a source text are those of the code of its syntax tree, blanks included, since blanks have no
operations. That code is balanced, and its operations have the same effect after they went through an image.
-/

namespace Scriptlet

open Bytecode (operations Faithful address slotNames slotOp callOps instructionOps operandOp)
open Ir (Code Instruction)

/-! ## Stages -/

theorem exists_ok_of_any {ε α : Type} {x : Except ε α} {p : α → Bool} (h : x.toOption.any p = true) :
    ∃ a, x = .ok a ∧ p a = true := by
  cases x with
  | error e => cases h
  | ok a => exact ⟨a, rfl, h⟩

/-- A source text that has operations has tokens, a syntax tree and code, and the operations are those of the code. -/
theorem exists_of_opsOfSource {source : String} {ops : List Op} (h : opsOfSource source = .ok ops) :
    ∃ tokens program code, tokenize source = .ok tokens ∧ parse tokens = .ok program ∧ Ir.arena program = .ok code
      ∧ ops = operations id code := by
  simp only [opsOfSource, codeOfSource, parseSource, Ir.generate, bind_eq_ok_iff, mapError_eq_ok_iff] at h
  obtain ⟨linear, ⟨program, ⟨tokens, htokens, hprogram⟩, code, hcode, hlinear⟩, hops⟩ := h
  rw [Bytecode.lower_linearize hlinear] at hops
  refine ⟨tokens, program, code, htokens, hprogram, hcode, ?_⟩
  rw [Bytecode.operations_id, (Bytecode.lower_eq_ok_iff.1 hops).2]

theorem exists_of_imageOfSource {source : String} {bytes : List UInt8} (h : imageOfSource source = .ok bytes) :
    ∃ ops, opsOfSource source = .ok ops ∧ Image.encode ops = .ok bytes := by
  simp only [imageOfSource, bind_eq_ok_iff, mapError_eq_ok_iff] at h
  exact h

/-- The code of a source text is balanced, and its callees are no literals of anything but themselves. -/
theorem balanced_of_tokenize {source : String} {tokens : List Token} {program : List Stmt} {code : Code}
    (htokens : tokenize source = .ok tokens) (hprogram : parse tokens = .ok program)
    (hcode : Ir.arena program = .ok code) :
    Ir.Balanced code ∧ ∀ i ∈ code, ∀ site, i.callSite? = some site →
      Value.ofLiteral site.callee = .string site.callee := by
  have hscanned := scanned_of_tokenize htokens
  have heof : ∀ t ∈ tokens, t.tag ≠ .eof := fun t ht => (hscanned t ht).tag_ne_eof
  have hfits := @blockFits_of_parse ⟨fun x => Value.ofLiteral x = .string x, fun _ _ => True⟩ _ heof _ hprogram
    fun t ht => ⟨(hscanned t ht).ofLiteral, fun _ _ => trivial⟩
  exact Ir.balanced_of_arena (unparse_of_parse heof hprogram).1 hfits hcode

/-! ## Operations -/

theorem address_target_lt {code : Code} (hcode : Ir.Balanced code) {i : Instruction} (hi : i ∈ code) {t : Nat}
    (ht : i.target? = some t) : address code t < address code code.length := by
  obtain ⟨hlt, -⟩ := hcode.target i hi t ht
  have hlast : code[code.length - 1]? = some .stop := List.getLast?_eq_getElem? ▸ hcode.last
  have hmono := Bytecode.address_mono code (show t ≤ code.length - 1 by omega)
  have hnext := Bytecode.address_succ hlast
  rw [Nat.sub_add_cancel (by omega)] at hnext
  rw [hnext]
  exact Nat.lt_succ_of_le hmono

/-- The operations of balanced code, whatever happened to literals that the operations do not look at. -/
theorem faithful_of_balanced {literal : Value → Value} {code : Code} (hcode : Ir.Balanced code)
    (hsize : address code code.length < 2 ^ 53) (hindex : ∀ n < 2 ^ 53, literal (.ofIndex n) = .ofIndex n)
    (hnil : literal .nil = .nil)
    (hcallee : ∀ i ∈ code, ∀ site, i.callSite? = some site → literal (.string site.callee) = .string site.callee) :
    Faithful literal code :=
  ⟨hsize, fun _ hi _ ht => address_target_lt hcode hi ht, hindex, hnil, fun i hi site hsite _ => hcallee i hi site hsite⟩

theorem slot_lt_of_operandOp {slots : List String} {x : String} {slot : Nat} (h : operandOp slots x = .pushSlot slot) :
    slot < slots.length := by
  rw [operandOp] at h
  split at h
  · cases h
  · split at h
    · split at h
      · rename_i hslot
        cases h
        rw [List.idxOf?, List.findIdx?_eq_some_iff_findIdx_eq] at hslot
        exact hslot.1
      · cases h
    · cases h

theorem slot_lt_of_mem_instructionOps {slots : List String} {target : Nat → Nat} {i : Instruction} {slot : Nat}
    (h : .pushSlot slot ∈ instructionOps slots target i) : slot < slots.length := by
  cases i with
  | branch x t =>
      have hx : .pushSlot slot = operandOp slots x := by simpa [instructionOps] using h
      exact slot_lt_of_operandOp hx.symm
  | assign x rhs =>
      cases rhs with
      | single y =>
          have hy : .pushSlot slot = operandOp slots y := by simpa [instructionOps, slotOp] using h
          exact slot_lt_of_operandOp hy.symm
      | unary op y =>
          have hy : .pushSlot slot = operandOp slots y := by simpa [instructionOps, slotOp] using h
          exact slot_lt_of_operandOp hy.symm
      | binary op y z =>
          have hyz : .pushSlot slot = operandOp slots z ∨ .pushSlot slot = operandOp slots y := by
            simpa [instructionOps, slotOp] using h
          rcases hyz with hz | hy
          · exact slot_lt_of_operandOp hz.symm
          · exact slot_lt_of_operandOp hy.symm
      | call site => cases ht : site.target <;> simp [instructionOps, slotOp, callOps, ht] at h
  | ret x =>
      have hx : .pushSlot slot = operandOp slots x := by simpa [instructionOps] using h
      exact slot_lt_of_operandOp hx.symm
  | param x name =>
      have hx : .pushSlot slot = operandOp slots x := by cases name <;> simpa [instructionOps, slotOp] using h
      exact slot_lt_of_operandOp hx.symm
  | call site => cases ht : site.target <;> simp [instructionOps, callOps, ht] at h
  | _ => simp [instructionOps] at h

theorem storable_of_mem_operations {code : Code} (hsize : address code code.length < 2 ^ 53) :
    ∀ op ∈ operations id code, Image.Storable op := by
  intro op hop
  rw [Bytecode.operations_id, List.mem_flatMap] at hop
  obtain ⟨i, -, hi⟩ := hop
  cases op with
  | pushSlot slot =>
      have hslot := Nat.lt_of_lt_of_le (slot_lt_of_mem_instructionOps hi) (Bytecode.length_slotNames_le code)
      exact (hslot.trans hsize).trans (by decide)
  | _ => trivial

/-- What is read back from the image of a source text are its operations after their literals were read anew. -/
theorem decode_of_encode {code : Code} (hsize : address code code.length < 2 ^ 53) {bytes : List UInt8}
    (h : Image.encode (operations id code) = .ok bytes) :
    Image.decode bytes = .ok (operations Value.reread code) := by
  rw [Image.decode_encode (storable_of_mem_operations hsize) h, Bytecode.operations_id]
  rfl

end Scriptlet
