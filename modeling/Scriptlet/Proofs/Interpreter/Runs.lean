import Mathlib.Tactic
import Scriptlet.Proofs.Interpreter.Basic
import Scriptlet.Proofs.Bytecode.Image
import Scriptlet.Proofs.Ir.Generation
import Scriptlet.Proofs.Ir.Machine

/-!
# Runs of code beside computations

A computation of the interpreter is matched by a run of code: if it gives a value, the code comes to a state that is
as required, if it fails, the code ends with the same error, and if it runs out of fuel, the code takes at least as many
steps as there was fuel.
-/

namespace Scriptlet.Interpreter

open Ir (Code Instruction CallSite State Transition Activation readOperand)

variable {σ : Type} [Streams σ]

/-! ## Paths -/

/-- Code goes on from one state to another. Instructions are counted unless they are blank. -/
inductive Path (code : Code) (limit : Nat) : Nat → State σ → State σ → Prop
  | refl (s : State σ) : Path code limit 0 s s
  | blank {n : Nat} {s s' : State σ} : code[s.place]? = some .blank → Path code limit n s.next s' → Path code limit n s s'
  | live {n : Nat} {s s₁ s' : State σ} : code[s.place]? ≠ some .blank →
      Ir.step Value.reread code limit s = some (.more s₁) → Path code limit n s₁ s' → Path code limit (n + 1) s s'

/-- A state between instructions where no parameter is pushed. -/
def resting (callers : List (Nat × Activation)) (place : Nat) (env : Env) (console : σ) : State σ :=
  ⟨place, ⟨env, []⟩, callers, console⟩

section Paths

variable {code : Code} {limit : Nat}

theorem Path.trans {m n : Nat} {s s₁ s₂ : State σ} (h : Path code limit m s s₁) (h' : Path code limit n s₁ s₂) :
    Path code limit (m + n) s s₂ := by
  induction h with
  | refl s => rwa [Nat.zero_add]
  | blank hi _ ih => exact .blank hi (ih h')
  | live hi hstep _ ih =>
      rw [Nat.add_right_comm]
      exact .live hi hstep (ih h')

theorem step_of_getElem? {s : State σ} {i : Instruction} (hi : code[s.place]? = some i) :
    Ir.step Value.reread code limit s = i.perform Value.reread code limit s := by
  rw [Ir.step, hi]

theorem Path.single {s s' : State σ} {i : Instruction} (hi : code[s.place]? = some i) (hlive : i ≠ .blank)
    (hstep : i.perform Value.reread code limit s = some (.more s')) : Path code limit 1 s s' := by
  refine .live ?_ ((step_of_getElem? hi).trans hstep) (.refl s')
  rw [hi]
  exact fun h => hlive (Option.some.inj h)

variable {callers : List (Nat × Activation)} {place : Nat} {env : Env} {console : σ}

theorem path_blank (hi : code[place]? = some .blank) :
    Path code limit 0 (resting callers place env console) (resting callers (place + 1) env console) :=
  .blank hi (.refl _)

theorem path_goto {t : Nat} (hi : code[place]? = some (.goto t)) :
    Path code limit 1 (resting callers place env console) (resting callers t env console) :=
  .single (i := .goto t) hi nofun rfl

theorem path_branch {x : String} {t : Nat} {v : Value} (hi : code[place]? = some (.branch x t))
    (hv : readOperand Value.reread env x = v) :
    Path code limit 1 (resting callers place env console)
      (resting callers (if v.truthy then t else place + 1) env console) := by
  subst hv
  exact .single (i := .branch x t) hi nofun rfl

end Paths

/-! ## Runs -/

section Runs

variable (code : Code) (limit : Nat)

/-- A run of code from a state matches what a computation comes to. -/
def Runs {α : Type} (fuel : Nat) (s : State σ) (r : Option (Except RuntimeError α × σ))
    (post : α → σ → State σ → Prop) : Prop :=
  match r with
  | none => ∃ n s', fuel ≤ n ∧ Path code limit n s s'
  | some (.ok a, console) => ∃ n s', Path code limit n s s' ∧ post a console s'
  | some (.error e, console) =>
    ∃ n s', Path code limit n s s' ∧ Ir.step Value.reread code limit s' = some (.done console (.error e))

end Runs

section Runs

variable {code : Code} {limit fuel : Nat} {α β : Type} {s s₁ : State σ} {console : σ}
  {post : α → σ → State σ → Prop} {post' : β → σ → State σ → Prop}

theorem Runs.ok {a : α} (h : post a console s) : Runs code limit fuel s (some (.ok a, console)) post :=
  ⟨0, s, .refl s, h⟩

theorem Runs.mono {more : Nat} {r : Option (Except RuntimeError α × σ)} (h : Runs code limit more s r post)
    (hle : fuel ≤ more) : Runs code limit fuel s r post := by
  rcases r with _ | ⟨_ | a, console⟩
  · obtain ⟨n, s', hn, hpath⟩ := h
    exact ⟨n, s', hle.trans hn, hpath⟩
  · exact h
  · exact h

/-- A path before a run adds to its steps. -/
theorem Runs.path {n : Nat} {r : Option (Except RuntimeError α × σ)} (hpath : Path code limit n s s₁)
    (h : Runs code limit fuel s₁ r post) : Runs code limit (n + fuel) s r post := by
  rcases r with _ | ⟨_ | a, console⟩
  · obtain ⟨k, s', hk, hpath'⟩ := h
    exact ⟨n + k, s', Nat.add_le_add_left hk n, hpath.trans hpath'⟩
  · obtain ⟨k, s', hpath', hend⟩ := h
    exact ⟨n + k, s', hpath.trans hpath', hend⟩
  · obtain ⟨k, s', hpath', hpost⟩ := h
    exact ⟨n + k, s', hpath.trans hpath', hpost⟩

theorem Runs.after {n : Nat} {r : Option (Except RuntimeError α × σ)} (hpath : Path code limit n s s₁)
    (h : Runs code limit fuel s₁ r post) : Runs code limit fuel s r post :=
  (h.path hpath).mono (Nat.le_add_left fuel n)

theorem Runs.bind {x : Eval σ α} {g : α → Eval σ β} (hx : Runs code limit fuel s (x console) post)
    (hg : ∀ a console s₁, post a console s₁ → Runs code limit fuel s₁ (g a console) post') :
    Runs code limit fuel s ((x >>= g) console) post' := by
  -- of the first computation only its result counts
  change Runs code limit fuel s (((fun _ => x console : Eval σ α) >>= g) console) post'
  generalize x console = r at hx ⊢
  rcases r with _ | ⟨e | a, console⟩
  · exact hx
  · exact hx
  · obtain ⟨n, s₁, hpath, hpost⟩ := hx
    exact (hg a console s₁ hpost).after hpath

/-- Code may go on after a value. -/
theorem Runs.followed {r : Option (Except RuntimeError α × σ)} {later : α → σ → State σ → Prop}
    (h : Runs code limit fuel s r post)
    (hpost : ∀ a console s₁, post a console s₁ → ∃ n s₂, Path code limit n s₁ s₂ ∧ later a console s₂) :
    Runs code limit fuel s r later := by
  rcases r with _ | ⟨_ | a, console⟩
  · exact h
  · exact h
  · obtain ⟨n, s₁, hpath, h⟩ := h
    obtain ⟨m, s₂, hpath', h'⟩ := hpost a console s₁ h
    exact ⟨n + m, s₂, hpath.trans hpath', h'⟩

theorem Runs.weaken {r : Option (Except RuntimeError α × σ)} {weaker : α → σ → State σ → Prop}
    (h : Runs code limit fuel s r post) (hpost : ∀ a console s', post a console s' → weaker a console s') :
    Runs code limit fuel s r weaker :=
  h.followed fun a console s' hs' => ⟨0, s', .refl s', hpost a console s' hs'⟩

theorem Runs.pure {a : α} (h : post a console s) : Runs code limit fuel s ((pure a : Eval σ α) console) post :=
  .ok h

variable {callers : List (Nat × Activation)} {place : Nat} {env : Env}

/-- An assignment gives its value to a name or fails. -/
theorem runs_assign {x : String} {i : Instruction} {r : Except RuntimeError Value} (hi : code[place]? = some i)
    (hlive : i ≠ .blank)
    (hstep : i.perform Value.reread code limit (resting callers place env console)
      = some ((resting callers place env console).assign x r)) :
    Runs code limit fuel (resting callers place env console) (Eval.lift r console)
      fun v console' s' => s' = resting callers (place + 1) (env.set x v) console' := by
  cases r with
  | error e => exact ⟨0, _, .refl _, (step_of_getElem? hi).trans hstep⟩
  | ok v => exact ⟨1, _, .single hi hlive hstep, rfl⟩

end Runs

/-! ## Parts of code -/

/-- Code that stands at a place. -/
def CodeAt (code : Code) (start : Nat) (part : Code) : Prop :=
  ∀ k i, part[k]? = some i → code[start + k]? = some i

section CodeAt

variable {code part more : Code} {start : Nat} {i : Instruction}

theorem CodeAt.head (h : CodeAt code start (i :: part)) : code[start]? = some i :=
  h 0 i rfl

theorem CodeAt.tail (h : CodeAt code start (i :: part)) : CodeAt code (start + 1) part := by
  intro k j hj
  rw [Nat.add_right_comm, Nat.add_assoc]
  exact h (k + 1) j hj

theorem CodeAt.left (h : CodeAt code start (part ++ more)) : CodeAt code start part := by
  intro k j hj
  apply h k j
  rw [List.getElem?_append_left (List.getElem?_eq_some_iff.1 hj).1, hj]

theorem CodeAt.right (h : CodeAt code start (part ++ more)) : CodeAt code (start + part.length) more := by
  intro k j hj
  rw [Nat.add_assoc]
  apply h (part.length + k) j
  rw [List.getElem?_append_right (Nat.le_add_right _ _), Nat.add_sub_cancel_left, hj]

end CodeAt

end Scriptlet.Interpreter
