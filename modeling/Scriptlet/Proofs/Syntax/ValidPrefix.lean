import Mathlib.Tactic
import Scriptlet.Proofs.Syntax.Grammar
import Scriptlet.Proofs.Syntax.Inverse

/-!
# Where reading fails

Parsers do what the grammar of programs allows: one that succeeds takes its part of the program off the stack, and one
that fails does so at the token at which the run of the grammar comes to a halt. So a program that cannot be read fails
at the first token with which no program goes on.
-/

namespace Scriptlet

open Grammar (Symbol Step Leads Settles)

/-! ## Cursors before an end mark -/

namespace Cursor

variable {c : Cursor}

/-- There is an end mark at the cursor or after it. -/
def HasEnd (c : Cursor) : Prop :=
  ∃ t ∈ c.toList, t.tag = .eof

theorem HasEnd.advance (h : c.HasEnd) (htag : c.tag ≠ .eof) :
    c.toList = c.current :: c.advance.toList ∧ c.advance.HasEnd ∧ c.advance.upcoming.length < c.upcoming.length
      ∧ c.advance.tag = c.nextTag := by
  obtain ⟨current, upcoming⟩ := c
  cases upcoming with
  | nil =>
      obtain ⟨t, ht, heof⟩ := h
      rw [List.mem_singleton.1 ht] at heof
      exact absurd heof htag
  | cons next rest =>
      rw [Cursor.advance_cons htag]
      refine ⟨rfl, ?_, Nat.lt_succ_self _, rfl⟩
      obtain ⟨t, ht, heof⟩ := h
      rcases List.mem_cons.1 ht with rfl | ht
      · exact absurd heof htag
      · exact ⟨t, ht, heof⟩

theorem HasEnd.tag_eq (h : c.HasEnd) (hlength : c.upcoming.length = 0) : c.tag = .eof := by
  by_contra htag
  have hlt := (h.advance htag).2.2.1
  omega

theorem toList_ofTokens (tokens : List Token) :
    ∃ last : Token, last.tag = .eof ∧ (ofTokens tokens).toList = tokens ++ [last] := by
  cases tokens with
  | nil => exact ⟨_, rfl, rfl⟩
  | cons t ts => exact ⟨_, rfl, rfl⟩

theorem hasEnd_ofTokens (tokens : List Token) : (ofTokens tokens).HasEnd := by
  obtain ⟨last, hlast, htokens⟩ := toList_ofTokens tokens
  exact ⟨last, by simp [htokens], hlast⟩

end Cursor

namespace Parser

/-! ## Parsers as parts of runs -/

/-- A parser does with the tokens what becomes of the symbols on top of the stack: if it succeeds, other symbols are
left, and fewer than `n` tokens after the current one; if it fails, the run halts where it does. -/
def Drives {α : Type} (c : Cursor) (p : Parser α) (top left : List Symbol) (n : Nat) : Prop :=
  c.HasEnd → match p c with
    | .ok _ c' => c'.HasEnd ∧ c'.upcoming.length < n
        ∧ ∀ σ r, Settles (left ++ σ, c'.toList) r → Settles (top ++ σ, c.toList) r
    | .error e c' => e.token = c'.current ∧ ∀ σ, ∃ τ, τ ≠ [] ∧ Settles (top ++ σ, c.toList) (τ, c'.toList)

section Rules

variable {α β : Type} {c : Cursor} {p : Parser α} {f : α → Parser β} {s : Symbol} {a : Tag}
  {top left mid new : List Symbol} {m n : Nat}

theorem Drives.ofHasEnd (h : c.HasEnd → Drives c p top left n) : Drives c p top left n :=
  fun hc => h hc hc

theorem Drives.pure {x : α} (h : c.upcoming.length < n) : Drives c (pure x) top top n :=
  fun hc => ⟨hc, h, fun _ _ hr => hr⟩

theorem Drives.get {f : Cursor → Parser β} (h : Drives c (f c) top left n) : Drives c (get >>= f) top left n :=
  h

theorem Drives.bind (hp : Drives c p top mid m)
    (hf : ∀ x c', c'.upcoming.length < m → Drives c' (f x) mid left n) : Drives c (p >>= f) top left n := by
  intro hc
  have hfirst := hp hc
  simp only [Bind.bind, EStateM.bind]
  cases hresult : p c with
  | error e c' =>
      rw [hresult] at hfirst
      exact hfirst
  | ok x c' =>
      rw [hresult] at hfirst
      obtain ⟨hc', hlength, hsettles⟩ := hfirst
      have hsecond := hf x c' hlength hc'
      dsimp only
      cases hresult' : f x c' with
      | error e c'' =>
          rw [hresult'] at hsecond
          obtain ⟨htoken, hstuck⟩ := hsecond
          refine ⟨htoken, fun σ => ?_⟩
          obtain ⟨τ, hne, hτ⟩ := hstuck σ
          exact ⟨τ, hne, hsettles σ _ hτ⟩
      | ok y c'' =>
          rw [hresult'] at hsecond
          exact ⟨hsecond.1, hsecond.2.1, fun σ r hr => hsettles σ r (hsecond.2.2 σ r hr)⟩

/-- What is below on the stack stays as it is. -/
theorem Drives.frame (h : Drives c p top left n) (below : List Symbol) :
    Drives c p (top ++ below) (left ++ below) n := by
  intro hc
  have hresult := h hc
  cases hp : p c with
  | error e c' =>
      rw [hp] at hresult
      refine ⟨hresult.1, fun σ => ?_⟩
      rw [List.append_assoc]
      exact hresult.2 (below ++ σ)
  | ok x c' =>
      rw [hp] at hresult
      refine ⟨hresult.1, hresult.2.1, fun σ r => ?_⟩
      rw [List.append_assoc, List.append_assoc]
      exact hresult.2.2 (below ++ σ) r

/-- A parser for the symbol on top, and one for what is below. -/
theorem Drives.andThen (hp : Drives c p [s] [] m)
    (hf : ∀ x c', c'.upcoming.length < m → Drives c' (f x) top left n) : Drives c (p >>= f) (s :: top) left n :=
  (hp.frame top).bind hf

/-- One stack stands for another if both runs come to the same end. -/
theorem Drives.congr {top' : List Symbol} (h : Drives c p top left n)
    (htop : c.HasEnd → ∀ σ r, Settles (top ++ σ, c.toList) r → Settles (top' ++ σ, c.toList) r) :
    Drives c p top' left n := by
  intro hc
  have hresult := h hc
  cases hp : p c with
  | error e c' =>
      rw [hp] at hresult
      refine ⟨hresult.1, fun σ => ?_⟩
      obtain ⟨τ, hne, hτ⟩ := hresult.2 σ
      exact ⟨τ, hne, htop hc σ _ hτ⟩
  | ok x c' =>
      rw [hp] at hresult
      exact ⟨hresult.1, hresult.2.1, fun σ r hr => htop hc σ r (hresult.2.2 σ r hr)⟩

theorem Drives.expand (hnew : s.expand? c.tag = some new) (h : Drives c p (new ++ top) left n) :
    Drives c p (s :: top) left n := by
  refine h.congr fun _ σ r hr => ?_
  rw [List.append_assoc] at hr
  exact hr.head (.expand hnew)

/-- The symbol below a token is replaced as the token after that one tells. -/
theorem Drives.expandNext (hc : c.tag = a) (ha : a ≠ .eof) (hnew : s.expand? c.nextTag = some new)
    (h : Drives c p (.token a :: (new ++ top)) left n) : Drives c p (.token a :: s :: top) left n := by
  refine h.congr fun hend σ r hr => ?_
  obtain ⟨htokens, -, -, hnext⟩ := hend.advance (hc ▸ ha)
  rw [htokens] at hr ⊢
  have hr' : Settles ((new ++ top) ++ σ, c.advance.toList) r := hr.tail (.take hc)
  rw [List.append_assoc] at hr'
  rw [← hnext] at hnew
  exact Settles.head (.take hc) (Settles.head (.expand hnew) hr')

/-- A parser fails where the symbol on top neither is the current token nor is replaced. -/
theorem Drives.halt {expected : Option Tag} (hp : p c = .error ⟨c.current, expected⟩ c) (htoken : s ≠ .token c.tag)
    (hnone : s.expand? c.tag = none) : Drives c p [s] left n := by
  intro _
  rw [hp]
  exact ⟨rfl, fun σ => ⟨s :: σ, List.cons_ne_nil _ _, .refl, Grammar.not_step_cons htoken hnone⟩⟩

end Rules

/-! ## Single tokens -/

section Tokens

variable {c : Cursor} {a : Tag}

theorem drives_take (hc : c.tag = a) (ha : a ≠ .eof) : Drives c take [.token a] [] c.upcoming.length := by
  intro hend
  obtain ⟨htokens, hend', hlength, -⟩ := hend.advance (hc ▸ ha)
  refine ⟨hend', hlength, fun σ r hr => ?_⟩
  rw [htokens]
  exact hr.head (.take hc)

theorem drives_expect (ha : a ≠ .eof) : Drives c (expect a) [.token a] [] c.upcoming.length := by
  apply Drives.get
  split
  · rename_i hc
    exact drives_take hc ha
  · rename_i hc
    exact .halt rfl (fun htoken => hc (Symbol.token.inj htoken).symm) rfl

theorem drives_takeName : Drives c takeName [.token .name] [] c.upcoming.length := by
  apply Drives.get
  split
  · rename_i hc
    exact (drives_take hc (by simp)).bind fun _ _ hlength => .pure hlength
  · rename_i hc
    exact .halt rfl (fun htoken => hc (Symbol.token.inj htoken).symm) rfl

end Tokens

/-! ## Expressions -/

section Expressions

variable {operand inner : Parser Expr} {layer : Layer} {b : Nat}

theorem drives_chainTail
    (hoperand : ∀ c, c.upcoming.length ≤ b → Drives c operand [.expr layer.operands] [] (c.upcoming.length + 1))
    {bound : Nat} {c : Cursor} (hbound : c.upcoming.length ≤ bound) (hb : c.upcoming.length ≤ b) :
    Drives c (chainTail layer operand bound) [.rest layer] [] (c.upcoming.length + 1) := by
  induction bound generalizing c with
  | zero =>
      refine .ofHasEnd fun hend => ?_
      have hnone : layer.operator? c.tag = none := by
        rw [hend.tag_eq (Nat.le_zero.1 hbound)]
        cases layer <;> rfl
      refine .expand (by rw [Symbol.expand?, hnone]; rfl) (.pure (Nat.lt_succ_self _))
  | succ bound ih =>
      apply Drives.get
      cases hop : layer.operator? c.tag with
      | none => exact .expand (by rw [Symbol.expand?, hop]; rfl) (.pure (Nat.lt_succ_self _))
      | some op =>
          refine .expand (by rw [Symbol.expand?, hop]; rfl) ?_
          have htag : c.tag ≠ .eof := by
            intro heof
            rw [heof] at hop
            cases layer <;> cases hop
          refine (drives_take rfl htag).andThen fun _ c₁ h₁ => ?_
          refine (hoperand c₁ (by omega)).andThen fun _ c₂ h₂ => ?_
          refine (ih (by omega) (by omega)).bind fun _ c₃ h₃ => .pure (by omega)

theorem drives_unaryOps {bound : Nat} {c : Cursor} (hbound : c.upcoming.length ≤ bound) :
    Drives c (unaryOps bound) [.expr .prefixes] [.expr .primary] (c.upcoming.length + 1) := by
  induction bound generalizing c with
  | zero =>
      refine .ofHasEnd fun hend => ?_
      have hnone : UnaryOp.ofTag? c.tag = none := by rw [hend.tag_eq (Nat.le_zero.1 hbound)]; rfl
      refine .expand (by rw [Symbol.expand?, hnone]; rfl) (.pure (Nat.lt_succ_self _))
  | succ bound ih =>
      apply Drives.get
      cases hop : UnaryOp.ofTag? c.tag with
      | none => exact .expand (by rw [Symbol.expand?, hop]; rfl) (.pure (Nat.lt_succ_self _))
      | some op =>
          refine .expand (by rw [Symbol.expand?, hop]; rfl) ?_
          have htag : c.tag ≠ .eof := by
            intro heof
            rw [heof] at hop
            cases hop
          refine (drives_take rfl htag).andThen fun _ c₁ h₁ => ?_
          exact (ih (by omega)).bind fun _ c₂ h₂ => .pure (by omega)

variable (hinner : ∀ c, c.upcoming.length < b → Drives c inner [.expr .whole] [] (c.upcoming.length + 1))

include hinner

theorem drives_moreArguments {bound : Nat} {c : Cursor} (hbound : c.upcoming.length ≤ bound)
    (hb : c.upcoming.length ≤ b) :
    Drives c (moreArguments inner bound) [.moreArgs] [] (c.upcoming.length + 1) := by
  induction bound generalizing c with
  | zero =>
      refine .ofHasEnd fun hend => ?_
      exact .expand (if_pos (.inr (hend.tag_eq (Nat.le_zero.1 hbound)))) (.pure (Nat.lt_succ_self _))
  | succ bound ih =>
      apply Drives.get
      dsimp only
      split
      · rename_i htag
        exact .expand (if_pos htag) (.pure (Nat.lt_succ_self _))
      · rename_i htag
        refine .expand (if_neg htag) ?_
        refine (drives_expect (by simp)).andThen fun _ c₁ h₁ => ?_
        refine (hinner c₁ (by omega)).andThen fun _ c₂ h₂ => ?_
        exact (ih (by omega) (by omega)).bind fun _ c₃ h₃ => .pure (by omega)

theorem drives_callee {c : Cursor} (hb : c.upcoming.length ≤ b) :
    Drives c (callee inner b) [.token .name, .token .lparen, .args, .token .rparen] [] c.upcoming.length := by
  refine drives_takeName.andThen fun name c₁ h₁ => ?_
  refine (drives_expect (by simp)).andThen fun _ c₂ h₂ => ?_
  have hclose : ∀ {c₃ : Cursor} {es : List Expr}, c₃.upcoming.length < c.upcoming.length →
      Drives c₃ (expect .rparen >>= fun _ => pure (name, es)) [.token .rparen] [] c.upcoming.length := fun h₃ =>
    (drives_expect (by simp)).andThen fun _ c₄ h₄ => .pure (by omega)
  apply Drives.get
  split
  · rename_i htag
    exact .expand (if_pos htag) (hclose (by omega))
  · rename_i htag
    refine .expand (if_neg htag) ?_
    refine (hinner c₂ (by omega)).andThen fun _ c₃ h₃ => ?_
    exact (drives_moreArguments hinner (by omega) (by omega)).andThen fun _ c₄ h₄ => hclose (by omega)

theorem drives_primary {c : Cursor} (hb : c.upcoming.length ≤ b) :
    Drives c (primary inner b) [.expr .primary] [] (c.upcoming.length + 1) := by
  have hliteral : ∀ {kind : LiteralKind}, c.tag = kind.tag →
      Drives c (literal kind) [.expr .primary] [] (c.upcoming.length + 1) := by
    intro kind htag
    have hne : kind.tag ≠ .eof := by cases kind <;> simp [LiteralKind.tag]
    have hnew : Symbol.expand? (.expr .primary) c.tag = some [.token kind.tag] := by rw [htag]; cases kind <;> rfl
    exact .expand hnew ((drives_take htag hne).bind fun _ _ h => .pure (by omega))
  apply Drives.get
  split
  · rename_i htag
    refine .expand (congrArg Symbol.primary? htag) ?_
    split
    · rename_i hnext
      refine .expandNext htag (by simp) (if_pos hnext) ?_
      exact (drives_callee hinner hb).bind fun _ _ h => .pure (by omega)
    · rename_i hnext
      refine .expandNext htag (by simp) (if_neg hnext) ?_
      exact (drives_take htag (by simp)).bind fun _ _ h => .pure (by omega)
  · rename_i htag
    refine .expand (congrArg Symbol.primary? htag) ?_
    refine (drives_take htag (by simp)).andThen fun _ c₁ h₁ => ?_
    refine (hinner c₁ (by omega)).andThen fun _ c₂ h₂ => ?_
    exact (drives_expect (by simp)).bind fun _ c₃ h₃ => .pure (by omega)
  · exact hliteral (by assumption)
  · exact hliteral (by assumption)
  · exact hliteral (by assumption)
  · exact hliteral (by assumption)
  · have hnone : Symbol.primary? c.tag = none := by
      cases htag : c.tag <;> first | rfl | contradiction
    exact .halt rfl (by simp) hnone

theorem drives_unary {c : Cursor} (hb : c.upcoming.length ≤ b) :
    Drives c (unary inner b) [.expr .prefixes] [] (c.upcoming.length + 1) := by
  refine (drives_unaryOps hb).bind fun _ c₁ h₁ => ?_
  exact (drives_primary hinner (by omega)).bind fun _ c₂ h₂ => .pure (by omega)

theorem drives_atLevel : (level : Level) → ∀ {c : Cursor}, c.upcoming.length ≤ b →
    Drives c (atLevel inner b level) [.expr level] [] (c.upcoming.length + 1)
  | .primary, c, hb => by
      rw [atLevel]
      exact drives_primary hinner hb
  | .prefixes, c, hb => by
      rw [atLevel]
      exact drives_unary hinner hb
  | .layer layer, c, hb => by
      rw [atLevel]
      refine .expand rfl ?_
      refine (drives_atLevel layer.operands hb).andThen fun _ c₁ h₁ => ?_
      refine (drives_chainTail (fun _ => drives_atLevel layer.operands) (by omega) (by omega)).bind fun _ c₂ h₂ => ?_
      exact .pure (by omega)
termination_by level => 7 - level.rank
decreasing_by
  all_goals
    rw [Layer.rank_operands]
    cases layer <;> decide

end Expressions

theorem drives_expr {b : Nat} {c : Cursor} (hb : c.upcoming.length < b) :
    Drives c (expr b) [.expr .whole] [] (c.upcoming.length + 1) := by
  induction b generalizing c with
  | zero => omega
  | succ b ih =>
      rw [expr_succ]
      exact drives_atLevel (fun _ => ih) .whole (Nat.le_of_lt_succ hb)

/-! ## Statements -/

theorem drives_moreParams {bound : Nat} {c : Cursor} (hbound : c.upcoming.length < bound) :
    Drives c (moreParams bound) [.moreParams] [] (c.upcoming.length + 1) := by
  induction bound generalizing c with
  | zero => omega
  | succ bound ih =>
      apply Drives.get
      split
      · rename_i htag
        exact .expand (if_pos htag) (.pure (Nat.lt_succ_self _))
      · rename_i htag
        refine .expand (if_neg htag) ?_
        refine (drives_expect (by simp)).andThen fun _ c₁ h₁ => ?_
        refine drives_takeName.andThen fun _ c₂ h₂ => ?_
        exact (ih (by omega)).bind fun _ c₃ h₃ => .pure (by omega)

theorem drives_params {b : Nat} {c : Cursor} (hb : c.upcoming.length < b) :
    Drives c (params b) [.params] [] (c.upcoming.length + 1) := by
  apply Drives.get
  split
  · rename_i htag
    exact .expand (if_pos htag) (.pure (Nat.lt_succ_self _))
  · rename_i htag
    refine .expand (if_neg htag) ?_
    refine drives_takeName.andThen fun _ c₁ h₁ => ?_
    exact (drives_moreParams (by omega)).bind fun _ c₂ h₂ => .pure (by omega)

/-- A name after a return is read as its value, unless it is assigned to. -/
theorem drives_ret {b : Nat} {c : Cursor} (hb : c.upcoming.length ≤ b) :
    Drives c (ret b) [.token .returnKw, .value, .block] [.block] c.upcoming.length := by
  refine (drives_expect (by simp)).andThen fun _ c₁ h₁ => ?_
  apply Drives.get
  split
  · rename_i hstarts
    have hvalue : Drives c₁ (expr b) [.value, .block] [.block] (c₁.upcoming.length + 1) := by
      by_cases htag : c₁.tag = .name
      · refine ((drives_expr (by omega)).frame [.block]).congr fun hend σ r hr => ?_
        obtain ⟨htokens, -, -, hnext⟩ := hend.advance (by rw [htag]; simp)
        rw [htokens] at hr ⊢
        refine hr.of_meet (Grammar.leads_expr_name htag) (Grammar.leads_value_name htag ?_)
        have hassign : c₁.advance.tag ≠ .assign := by rw [hnext]; exact hstarts.2.resolve_left fun hne => hne htag
        exact hassign
      · have hnew : Symbol.expand? .value c₁.tag = some [.expr .whole] := by
          simp [Symbol.expand?, htag, hstarts.1]
        exact .expand hnew ((drives_expr (by omega)).frame [.block])
    exact hvalue.bind fun _ c₂ h₂ => .pure (by omega)
  · rename_i hstarts
    by_cases htag : c₁.tag = .name
    · have hassign : c₁.nextTag = .assign := by
        by_contra hne
        exact hstarts ⟨by rw [htag]; rfl, .inr hne⟩
      refine Drives.congr (Drives.pure h₁) fun hend σ r hr => ?_
      obtain ⟨htokens, -, -, hnext⟩ := hend.advance (by rw [htag]; simp)
      rw [htokens] at hr ⊢
      exact hr.of_meet (Grammar.leads_block_assign htag (hnext.trans hassign))
        (Grammar.leads_value_assign htag (hnext.trans hassign))
    · have hnew : Symbol.expand? .value c₁.tag = some [] := by
        have hnone : c₁.tag.startsExpression = false := by
          by_contra hne
          exact hstarts ⟨by simpa using hne, .inl htag⟩
        simp [Symbol.expand?, htag, hnone]
      exact .expand hnew (.pure h₁)

theorem drives_assign {b : Nat} {c : Cursor} (hb : c.upcoming.length ≤ b) :
    Drives c (assign b) [.token .name, .token .assign, .expr .whole] [] c.upcoming.length := by
  refine drives_takeName.andThen fun _ c₁ h₁ => ?_
  refine (drives_expect (by simp)).andThen fun _ c₂ h₂ => ?_
  exact (drives_expr (by omega)).bind fun _ c₃ h₃ => .pure (by omega)

section Blocks

variable {body : Parser (List Stmt)} {b : Nat} {c : Cursor}
  (hbody : ∀ c, c.upcoming.length < b → Drives c body [.block] [] (c.upcoming.length + 1))

include hbody

theorem drives_loop (hb : c.upcoming.length ≤ b) :
    Drives c (loop body b) [.token .whileKw, .expr .whole, .token .doKw, .block, .token .endKw] []
      c.upcoming.length := by
  refine (drives_expect (by simp)).andThen fun _ c₁ h₁ => ?_
  refine (drives_expr (by omega)).andThen fun _ c₂ h₂ => ?_
  refine (drives_expect (by simp)).andThen fun _ c₃ h₃ => ?_
  refine (hbody c₃ (by omega)).andThen fun _ c₄ h₄ => ?_
  exact (drives_expect (by simp)).bind fun _ c₅ h₅ => .pure (by omega)

theorem drives_cond (hb : c.upcoming.length ≤ b) :
    Drives c (cond body b) [.token .ifKw, .expr .whole, .token .thenKw, .block, .otherwise, .token .endKw] []
      c.upcoming.length := by
  refine (drives_expect (by simp)).andThen fun _ c₁ h₁ => ?_
  refine (drives_expr (by omega)).andThen fun test c₂ h₂ => ?_
  refine (drives_expect (by simp)).andThen fun _ c₃ h₃ => ?_
  refine (hbody c₃ (by omega)).andThen fun thenBlock c₄ h₄ => ?_
  have hclose : ∀ {c₅ : Cursor} {elseBlock : List Stmt}, c₅.upcoming.length < c.upcoming.length →
      Drives c₅ (expect .endKw >>= fun _ => pure (Stmt.cond test thenBlock elseBlock)) [.token .endKw] []
        c.upcoming.length := fun h₅ =>
    (drives_expect (by simp)).bind fun _ c₆ h₆ => .pure (by omega)
  apply Drives.get
  split
  · rename_i htag
    exact .expand (if_pos htag) (hclose (by omega))
  · rename_i htag
    refine .expand (if_neg htag) ?_
    refine (drives_expect (by simp)).andThen fun _ c₅ h₅ => ?_
    exact (hbody c₅ (by omega)).andThen fun _ c₆ h₆ => hclose (by omega)

theorem drives_function (hb : c.upcoming.length ≤ b) :
    Drives c (function body b) [.token .functionKw, .token .name, .token .lparen, .params, .token .rparen, .block,
      .token .endKw] [] c.upcoming.length := by
  refine (drives_expect (by simp)).andThen fun _ c₁ h₁ => ?_
  refine drives_takeName.andThen fun _ c₂ h₂ => ?_
  refine (drives_expect (by simp)).andThen fun _ c₃ h₃ => ?_
  refine (drives_params (by omega)).andThen fun _ c₄ h₄ => ?_
  refine (drives_expect (by simp)).andThen fun _ c₅ h₅ => ?_
  refine (hbody c₅ (by omega)).andThen fun _ c₆ h₆ => ?_
  exact (drives_expect (by simp)).bind fun _ c₇ h₇ => .pure (by omega)

theorem drives_statement (hc : c.tag.startsStatement = true) (hb : c.upcoming.length ≤ b) :
    Drives c (statement body b) [.block] [.block] c.upcoming.length := by
  have hblock : ∀ {p : Parser Stmt} {tag : Tag}, c.tag = tag →
      Drives c p (Symbol.statements tag) [.block] c.upcoming.length →
      Drives c p [.block] [.block] c.upcoming.length := by
    rintro p _ rfl h
    refine .expand rfl ?_
    rwa [List.append_nil]
  apply Drives.get
  split
  · rename_i htag
    exact hblock htag ((drives_cond hbody hb).frame [.block])
  · rename_i htag
    exact hblock htag ((drives_loop hbody hb).frame [.block])
  · rename_i htag
    exact hblock htag (drives_ret hb)
  · rename_i htag
    exact hblock htag (((drives_take htag (by simp)).frame [.block]).bind fun _ c₁ h₁ => .pure h₁)
  · rename_i htag
    exact hblock htag ((drives_function hbody hb).frame [.block])
  · rename_i htag
    refine hblock htag ?_
    split
    · rename_i hnext
      refine .expandNext htag (by simp) (if_pos hnext) ?_
      have hcallee := drives_callee (fun _ => drives_expr) hb
      exact (hcallee.frame [.block]).bind fun _ c₁ h₁ => .pure h₁
    · rename_i hnext
      exact .expandNext htag (by simp) (if_neg hnext) ((drives_assign hb).frame [.block])
  · exfalso
    cases htag : c.tag <;> first | contradiction | (rw [htag] at hc; cases hc)

end Blocks

theorem drives_block {b : Nat} {c : Cursor} (hb : c.upcoming.length < b) :
    Drives c (block b) [.block] [] (c.upcoming.length + 1) := by
  induction b generalizing c with
  | zero => omega
  | succ b ih =>
      apply Drives.get
      split
      · rename_i hstarts
        refine (drives_statement (fun _ => ih) hstarts (by omega)).bind fun _ c₁ h₁ => ?_
        exact (ih (by omega)).bind fun _ c₂ h₂ => .pure (by omega)
      · rename_i hstarts
        have hnone : Symbol.statements c.tag = [] := by
          cases htag : c.tag <;> first | rfl | (rw [htag] at hstarts; exact absurd rfl hstarts)
        exact .expand (congrArg some hnone) (.pure (Nat.lt_succ_self _))

end Parser

/-! ## Programs -/

section Programs

variable {tokens : List Token}

/-- The run takes all symbols off the stack before an end mark. -/
def Accepts (tokens : List Token) : Prop :=
  ∃ last rest, last.tag = .eof ∧ Settles ([.block], (Cursor.ofTokens tokens).toList) ([], last :: rest)

/-- A program is read if the run takes all symbols off the stack before an end mark. Otherwise reading fails at the
token at which the run halts. -/
theorem Parser.settles_program (tokens : List Token) :
    match program (Cursor.ofTokens tokens) with
    | .ok _ _ => Accepts tokens
    | .error e c => e.token = c.current ∧ ∃ τ, (τ ≠ [] ∨ c.tag ≠ .eof)
        ∧ Settles ([.block], (Cursor.ofTokens tokens).toList) (τ, c.toList) := by
  have hblock := drives_block (Nat.lt_succ_self (Cursor.ofTokens tokens).upcoming.length)
    (Cursor.hasEnd_ofTokens tokens)
  rw [program, get_bind]
  cases hresult : block ((Cursor.ofTokens tokens).upcoming.length + 1) (Cursor.ofTokens tokens) with
  | error e c =>
      rw [hresult] at hblock
      obtain ⟨τ, hne, hτ⟩ := hblock.2 []
      simp only [bind, EStateM.bind, hresult]
      exact ⟨hblock.1, τ, .inl hne, hτ⟩
  | ok stmts c =>
      rw [hresult] at hblock
      have hsettles := hblock.2.2 [] ([], c.toList) ⟨.refl, Grammar.not_step_nil _⟩
      rw [bind_ok hresult]
      by_cases htag : c.tag = .eof
      · have hexpect : expect .eof c = .ok c.current c.advance := by
          rw [expect, get_bind, if_pos htag]
          rfl
        rw [bind_ok hexpect]
        exact ⟨c.current, c.upcoming, htag, hsettles⟩
      · have hexpect : expect .eof c = .error ⟨c.current, some .eof⟩ c := by
          rw [expect, get_bind, if_neg htag]
          rfl
        simp only [bind, EStateM.bind, hexpect]
        exact ⟨trivial, [], .inr htag, hsettles⟩

theorem parse_eq_ok_iff : (∃ program, parse tokens = .ok program) ↔ Accepts tokens := by
  have hsettles := Parser.settles_program tokens
  rw [parse]
  cases hresult : Parser.program (Cursor.ofTokens tokens) with
  | ok program c =>
      rw [hresult] at hsettles
      exact ⟨fun _ => hsettles, fun _ => ⟨program, rfl⟩⟩
  | error e c =>
      rw [hresult] at hsettles
      refine ⟨by simp, ?_⟩
      rintro ⟨last, rest, hlast, haccepts⟩
      obtain ⟨-, τ, hτ, hhalts⟩ := hsettles
      obtain ⟨rfl, htokens⟩ := Prod.mk.inj (hhalts.unique haccepts)
      have htag : c.tag = .eof := by
        rw [Cursor.tag, (List.cons.inj htokens).1, hlast]
      rcases hτ with hne | hne
      · exact absurd rfl hne
      · exact absurd htag hne

/-- What was taken before the run halts is the beginning of a program. -/
theorem accepts_extension {taken ts : List Token} {t : Token} {τ : List Symbol}
    (h : Leads ([.block], taken ++ t :: ts) (τ, t :: ts)) :
    ∃ more, (∀ u ∈ more, u.tag ≠ .eof) ∧ Accepts (taken ++ more) := by
  obtain ⟨σ, hbefore, -⟩ := h.split
  have hviable : Grammar.Viable σ := Grammar.Viable.of_leads (hbefore []) ⟨rfl, trivial⟩
  refine ⟨(Grammar.fill σ).map Token.mark, ?_, ?_⟩
  · intro u hu
    obtain ⟨tag, htag, rfl⟩ := List.mem_map.1 hu
    exact Grammar.ne_eof_of_mem_fill hviable tag htag
  · obtain ⟨last, hlast, htokens⟩ := Cursor.toList_ofTokens (taken ++ (Grammar.fill σ).map Token.mark)
    refine ⟨last, [], hlast, ?_, Grammar.not_step_nil _⟩
    rw [htokens, List.append_assoc]
    exact (hbefore _).trans (Grammar.leads_fill hviable hlast)

/-- No program begins with what was taken and the token at which the run halts. -/
theorem not_accepts_of_halt {taken ts : List Token} {t : Token} {τ : List Symbol}
    (h : Settles ([.block], taken ++ t :: ts) (τ, t :: ts)) (hτ : τ ≠ [] ∨ t.tag ≠ .eof) (more : List Token) :
    ¬ Accepts (taken ++ t :: more) := by
  rintro ⟨last, rest, hlast, haccepts⟩
  obtain ⟨σ, hbefore, hafter⟩ := h.1.split
  obtain ⟨mark, -, htokens⟩ := Cursor.toList_ofTokens (taken ++ t :: more)
  rw [htokens, List.append_assoc, List.cons_append] at haccepts
  have hhalts : Settles ([.block], taken ++ t :: (more ++ [mark])) (τ, t :: (more ++ [mark])) :=
    ⟨(hbefore _).trans (hafter _), Grammar.not_step_of_head h.2⟩
  obtain ⟨rfl, hrest⟩ := Prod.mk.inj (hhalts.unique haccepts)
  rcases hτ with hne | hne
  · exact hne rfl
  · exact hne ((List.cons.inj hrest).1 ▸ hlast)

/-- Reading fails at the first token with which no program goes on: the tokens before it are the beginning of a program,
and together with it they are not. If that is the end mark, the tokens are no program, but the beginning of one. -/
theorem parse_error_at_first_misfit {e : ParseError} (h : parse tokens = .error e) : ∃ c k,
    Parser.program (Cursor.ofTokens tokens) = .error e c ∧ k ≤ tokens.length
      ∧ c.toList = (Cursor.ofTokens tokens).toList.drop k ∧ (Cursor.ofTokens tokens).toList[k]? = some e.token
      ∧ (∃ more program, (∀ t ∈ more, t.tag ≠ .eof) ∧ parse (tokens.take k ++ more) = .ok program)
      ∧ (k < tokens.length → ∀ more program, parse (tokens.take (k + 1) ++ more) ≠ .ok program) := by
  obtain ⟨c, hprogram⟩ : ∃ c, Parser.program (Cursor.ofTokens tokens) = .error e c := by
    rw [parse] at h
    split at h
    · cases h
    · rename_i e' c hresult
      cases h
      exact ⟨c, hresult⟩
  have hsettles := Parser.settles_program tokens
  rw [hprogram] at hsettles
  obtain ⟨htoken, τ, hτ, hhalts⟩ := hsettles
  obtain ⟨taken, htaken⟩ := hhalts.1.suffix
  obtain ⟨last, -, htokens⟩ := Cursor.toList_ofTokens tokens
  change taken ++ c.current :: c.upcoming = (Cursor.ofTokens tokens).toList at htaken
  rw [← htaken] at hhalts ⊢
  rw [htokens] at htaken
  have hk : taken.length ≤ tokens.length := by
    have hlength := congrArg List.length htaken
    simp only [List.length_append, List.length_cons, List.length_nil] at hlength
    omega
  have htake : tokens.take taken.length = taken := by
    rw [← List.take_append_of_le_length hk, ← htaken, List.take_left]
  refine ⟨c, taken.length, hprogram, hk, (List.drop_left).symm, ?_, ?_, ?_⟩
  · rw [List.getElem?_append_right (Nat.le_refl _), Nat.sub_self, htoken]
    rfl
  · obtain ⟨more, hmore, haccepts⟩ := accepts_extension hhalts.1
    obtain ⟨program, hprogram⟩ := parse_eq_ok_iff.2 haccepts
    exact ⟨more, program, hmore, by rw [htake, hprogram]⟩
  · intro hlt more program hparse
    have hle : taken.length + 1 ≤ tokens.length := hlt
    have htake' : tokens.take (taken.length + 1) = taken ++ [c.current] := by
      rw [← List.take_append_of_le_length hle, ← htaken, List.take_length_add_append]
      rfl
    rw [htake', List.append_assoc] at hparse
    exact not_accepts_of_halt hhalts hτ more (parse_eq_ok_iff.1 ⟨program, hparse⟩)

/-- After a return, a name is assigned to, and what is assigned is missing. -/
theorem parse_error_at_first_misfit_return :
    parse [.mark .returnKw, .ofText .name "x", .mark .assign, .mark .rparen, .mark .endKw]
        = .error ⟨.mark .rparen, none⟩
      ∧ (∃ more program, parse ([.mark .returnKw, .ofText .name "x", .mark .assign] ++ more) = .ok program)
      ∧ ∀ more program,
        parse ([.mark .returnKw, .ofText .name "x", .mark .assign, .mark .rparen] ++ more) ≠ .ok program := by
  have herror : parse [.mark .returnKw, .ofText .name "x", .mark .assign, .mark .rparen, .mark .endKw]
      = .error ⟨.mark .rparen, none⟩ := rfl
  obtain ⟨c, k, -, hk, -, htoken, ⟨more, program, -, hmore⟩, hnone⟩ := parse_error_at_first_misfit herror
  -- no other token of the five is a closing parenthesis
  obtain rfl : k = 3 := by
    simp at hk
    interval_cases k <;> first | rfl | (exfalso; revert htoken; decide)
  exact ⟨herror, ⟨more, program, hmore⟩, hnone (by decide)⟩

end Programs

end Scriptlet
