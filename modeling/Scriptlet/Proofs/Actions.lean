import Mathlib.Tactic

/-!
# Actions on a state

Parsers, generators, assemblers and consoles work on a state and may fail. An action that succeeds hands its value and its
state on to the next one, and an action that fails is the last one.
-/

namespace Scriptlet

/-! ## Failing without a state -/

section Except

variable {ε ε' α β : Type} {x : Except ε α}

theorem bind_eq_ok_iff {f : α → Except ε β} {b : β} : (x >>= f) = .ok b ↔ ∃ a, x = .ok a ∧ f a = .ok b := by
  cases x with
  | error e => simp [bind, Except.bind]
  | ok a => simp [bind, Except.bind]

theorem bind_eq_error_iff {f : α → Except ε β} {e : ε} :
    (x >>= f) = .error e ↔ x = .error e ∨ ∃ a, x = .ok a ∧ f a = .error e := by
  cases x with
  | error e => simp [bind, Except.bind]
  | ok a => simp [bind, Except.bind]

theorem mapError_eq_ok_iff {f : ε → ε'} {a : α} : x.mapError f = .ok a ↔ x = .ok a := by
  cases x <;> simp [Except.mapError]

theorem pure_eq_ok (a : α) : (pure a : Except ε α) = .ok a :=
  rfl

end Except

/-! ## Failing without a trace

The state is lost when such an action fails. Its runs are compared with computations that have no state. -/

section StateT

variable {ε σ α β γ δ : Type} {m : StateT σ (Except ε) α} {k : α → StateT σ (Except ε) β} {s s' : σ}

/-- What is done first does not fail. -/
theorem run_step {a : α} {r : Except ε (β × σ)} (h : m.run s = .ok (a, s')) (hk : (k a).run s' = r) :
    (m >>= k).run s = r := by
  rw [StateT.run_bind, h]
  exact hk

/-- What is done first may fail, and does so as its counterpart does. -/
theorem run_andThen {r : Except ε γ} {next : γ → Except ε δ} {f : γ → α × σ} {f' : δ → β × σ} (h : m.run s = r.map f)
    (hk : ∀ c, r = .ok c → (k (f c).1).run (f c).2 = (next c).map f') : (m >>= k).run s = (r >>= next).map f' := by
  rw [StateT.run_bind, h]
  cases r with
  | error e => rfl
  | ok c => exact hk c rfl

/-- What is done last may fail, and its counterpart goes on without failing. -/
theorem run_last {r : Except ε γ} {next : γ → Except ε δ} {f : γ → α × σ} {f' : δ → α × σ} (h : m.run s = r.map f)
    (hnext : ∀ c, (next c).map f' = .ok (f c)) : m.run s = (r >>= next).map f' := by
  rw [h]
  cases r with
  | error e => rfl
  | ok c => exact (hnext c).symm

end StateT

/-! ## Failing with a state -/

section EStateM

variable {ε σ α β : Type} {x : EStateM ε σ α} {f : α → EStateM ε σ β} {s s' : σ}

theorem bind_ok {a : α} (h : x s = .ok a s') : (x >>= f) s = f a s' := by
  simp only [bind, EStateM.bind, h]

theorem bind_error {e : ε} (h : x s = .error e s') : (x >>= f) s = .error e s' := by
  simp only [bind, EStateM.bind, h]

theorem get_bind {f : σ → EStateM ε σ β} : (get >>= f) s = f s s :=
  rfl

theorem set_bind {f : PUnit → EStateM ε σ β} : (set s' >>= f) s = f ⟨⟩ s' :=
  rfl

theorem modify_bind {g : σ → σ} {f : PUnit → EStateM ε σ β} : (modify g >>= f) s = f ⟨⟩ (g s) :=
  rfl

/-- The action keeps what holds of the state, whether it fails or not. -/
def Keeps (P : σ → Prop) (x : EStateM ε σ α) : Prop :=
  ∀ s, P s → match x s with
    | .ok _ s' => P s'
    | .error _ s' => P s'

variable {P : σ → Prop}

theorem Keeps.bind (hx : Keeps P x) (hf : ∀ a, Keeps P (f a)) : Keeps P (x >>= f) := by
  intro s hs
  have hfirst := hx s hs
  cases hxs : x s with
  | error e s₁ =>
      rw [bind_error hxs]
      rwa [hxs] at hfirst
  | ok a s₁ =>
      rw [bind_ok hxs]
      rw [hxs] at hfirst
      exact hf a s₁ hfirst

theorem keeps_pure (a : α) : Keeps P (pure a : EStateM ε σ α) :=
  fun _ hs => hs

theorem keeps_throw (e : ε) : Keeps P (throw e : EStateM ε σ α) :=
  fun _ hs => hs

theorem keeps_set (h : P s) : Keeps P (set s : EStateM ε σ PUnit) :=
  fun _ _ => h

theorem keeps_get {f : σ → EStateM ε σ β} (h : ∀ s, P s → Keeps P (f s)) : Keeps P (get >>= f) :=
  fun s hs => h s hs s hs

end EStateM

end Scriptlet
