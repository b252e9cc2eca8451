import Mathlib.Tactic
import Scriptlet.Machine.Builtin
import Scriptlet.Proofs.Actions

/-!
# Output

Builtins do to streams what can be done by taking lines, writing and flushing, and nothing else. So they take nothing
back that was written, also when they fail, if the streams do not.
-/

namespace Scriptlet

/-! ## What all streams do -/

namespace Streams

variable {σ : Type} [Streams σ] {P : σ → Prop}

/-- Nothing that can be done to streams changes that something holds of them. -/
structure Invariant (P : σ → Prop) : Prop where
  takeLine : Keeps P (takeLine : StreamM σ String)
  write : ∀ bytes, Keeps P (write bytes : StreamM σ Unit)
  flush : Keeps P (flush : StreamM σ Unit)

/-- What was written, as it can be read off the streams, is not taken back. -/
def Grows (written : σ → List UInt8) : Prop :=
  ∀ output, Invariant fun s : σ => output <+: written s

theorem Invariant.readLine (h : Invariant P) : Keeps P (readLine : StreamM σ (Option String)) :=
  h.takeLine.bind fun _ => keeps_pure _

theorem Invariant.writeLine (h : Invariant P) (text : String) : Keeps P (writeLine text : StreamM σ Unit) :=
  (h.write _).bind fun _ => h.write _

end Streams

namespace Builtin

variable {σ : Type} [Streams σ] {P : σ → Prop}

theorem keeps_printLines (h : Streams.Invariant P) (args : List Value) : Keeps P (printLines args : StreamM σ Unit) := by
  induction args with
  | nil => exact keeps_pure _
  | cons v args ih => exact (h.writeLine _).bind fun _ => ih

/-- A builtin changes nothing that cannot be changed. -/
theorem keeps_run (h : Streams.Invariant P) (b : Builtin) (args : List Value) : Keeps P (b.run args : StreamM σ Value) := by
  cases b with
  | print => exact (keeps_printLines h args).bind fun _ => h.flush.bind fun _ => keeps_pure _
  | tostring => exact keeps_pure _
  | tonumber =>
      rw [run]
      split <;> exact keeps_pure _
  | read =>
      refine h.readLine.bind fun line => ?_
      split <;> exact keeps_pure _

end Builtin

/-! ## What consoles do -/

namespace Console

variable {output : List UInt8}

theorem keeps_set_output {c c' : Console} (hc : output <+: c.output) (h : c.output <+: c'.output) :
    Keeps (fun c : Console => output <+: c.output) (set c' : Action PUnit) :=
  keeps_set (hc.trans h)

theorem keeps_takeLine : Keeps (fun c : Console => output <+: c.output) takeLine := by
  refine keeps_get fun c hc => Keeps.bind (keeps_set_output hc List.prefix_rfl) fun _ => ?_
  split
  · exact keeps_pure _
  · exact keeps_throw _

theorem keeps_write (bytes : List UInt8) : Keeps (fun c : Console => output <+: c.output) (write bytes) := by
  refine keeps_get fun c hc => ?_
  split
  · exact keeps_set_output hc (List.prefix_append _ _)
  · refine Keeps.bind (keeps_set_output hc (List.prefix_append _ _)) fun _ => ?_
    split
    · exact keeps_throw _
    · exact keeps_pure _

theorem keeps_flush : Keeps (fun c : Console => output <+: c.output) flush := by
  refine keeps_get fun c hc => Keeps.bind (keeps_set_output hc List.prefix_rfl) fun _ => ?_
  split
  · exact keeps_throw _
  · exact keeps_pure _

/-- The output of a console is not taken back. -/
theorem grows_output : Streams.Grows Console.output :=
  fun _ => ⟨keeps_takeLine, keeps_write, keeps_flush⟩

end Console

end Scriptlet
