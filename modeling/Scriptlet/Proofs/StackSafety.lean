import Mathlib.Tactic
import Scriptlet.Proofs.Compilation

/-!
# Compiled operations are safe

Whatever a source text is compiled to runs without taking from an empty stack, without slots, addresses or counts that
are none, and without passing the last operation, both as it is and after it was stored in an image.
-/

namespace Scriptlet

open Bytecode (operations address)

/-- The operations of a source text are safe, and so are those read back from its image. -/
theorem compiled_stackSafe {σ : Type} [Streams σ] {source : String} {ops : List Op} (h : opsOfSource source = .ok ops)
    (hsize : ops.length < 2 ^ 53) :
    StackSafe σ ops ∧ ∀ bytes, imageOfSource source = .ok bytes →
      ∃ decoded, Image.decode bytes = .ok decoded ∧ StackSafe σ decoded := by
  obtain ⟨tokens, program, code, htokens, hprogram, hcode, rfl⟩ := exists_of_opsOfSource h
  obtain ⟨hbalanced, hcallees⟩ := balanced_of_tokenize htokens hprogram hcode
  rw [Bytecode.length_operations] at hsize
  constructor
  · have hfaithful := @faithful_of_balanced id code hbalanced hsize (fun _ _ => rfl) rfl fun _ _ _ _ => rfl
    exact Bytecode.stackSafe_of_balanced hfaithful hbalanced
  · intro bytes hbytes
    obtain ⟨ops, hops, hencode⟩ := exists_of_imageOfSource hbytes
    rw [h] at hops
    cases hops
    have hfaithful : Bytecode.Faithful Value.reread code :=
      faithful_of_balanced hbalanced hsize (fun n hn => Value.reread_ofIndex hn) Value.reread_nil hcallees
    exact ⟨_, decode_of_encode hsize hencode, Bytecode.stackSafe_of_balanced hfaithful hbalanced⟩

/-- A recursive function with a loop that is left by a return, and a call among the arguments of a call. -/
theorem compiled_stackSafe_recursion :
    ∃ ops decoded, opsOfSource "function f(n) while n do return f(f()) end end f(1)" = .ok ops ∧ ops.length < 2 ^ 53
      ∧ (∃ bytes, imageOfSource "function f(n) while n do return f(f()) end end f(1)" = .ok bytes
        ∧ Image.decode bytes = .ok decoded) ∧ StackSafe Console ops ∧ StackSafe Console decoded := by
  have hops : (opsOfSource "function f(n) while n do return f(f()) end end f(1)").toOption.any
      (fun ops => ops.length < 2 ^ 53) = true := by
    decide +kernel
  have hbytes : (imageOfSource "function f(n) while n do return f(f()) end end f(1)").toOption.any
      (fun _ => true) = true := by
    decide +kernel
  obtain ⟨ops, hops, hsize⟩ := exists_ok_of_any hops
  obtain ⟨bytes, hbytes, -⟩ := exists_ok_of_any hbytes
  rw [decide_eq_true_eq] at hsize
  obtain ⟨hsafe, himage⟩ := @compiled_stackSafe Console _ _ _ hops hsize
  obtain ⟨decoded, hdecoded, hsafe'⟩ := himage bytes hbytes
  exact ⟨ops, decoded, hops, hsize, ⟨bytes, hbytes, hdecoded⟩, hsafe, hsafe'⟩

end Scriptlet
