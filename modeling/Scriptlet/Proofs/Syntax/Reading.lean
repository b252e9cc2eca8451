import Mathlib.Tactic
import Scriptlet.Proofs.Actions
import Scriptlet.Proofs.Syntax.Printing
import Scriptlet.Syntax.Parser

/-!
# Reading what was printed

The tokens of a well-formed program are read back as that program. A part of a program is read back wherever it
stands, provided that the token after it does not prolong it.
-/

namespace Scriptlet

open Token (ofText mark)

/-! ## Cursors before tokens -/

/-- A cursor at the first of some tokens, after which another cursor is reached. -/
def Cursor.prepend (c : Cursor) : List Token → Cursor
  | [] => c
  | t :: ts => ⟨t, (c.prepend ts).current :: (c.prepend ts).upcoming⟩

namespace Cursor

variable {c : Cursor} {t : Token} {ts : List Token}

@[simp]
theorem prepend_nil : c.prepend [] = c :=
  rfl

theorem prepend_append (ts more : List Token) : c.prepend (ts ++ more) = (c.prepend more).prepend ts := by
  induction ts with
  | nil => rfl
  | cons t ts ih => rw [List.cons_append, prepend, prepend, ih]

theorem prepend_cons_eq (c : Cursor) (t : Token) (ts : List Token) :
    c.prepend (t :: ts) = ⟨t, ts ++ c.current :: c.upcoming⟩ := by
  induction ts generalizing t with
  | nil => rfl
  | cons next ts ih => rw [prepend, ih, List.cons_append]

theorem length_upcoming_ofTokens (tokens : List Token) : (ofTokens tokens).upcoming.length = tokens.length := by
  cases tokens <;> simp [ofTokens]

@[simp]
theorem tag_prepend_cons : (c.prepend (t :: ts)).tag = t.tag :=
  rfl

@[simp]
theorem nextTag_prepend_cons : (c.prepend (t :: ts)).nextTag = (c.prepend ts).tag :=
  rfl

theorem advance_cons {next : Token} (h : t.tag ≠ .eof) : advance ⟨t, next :: ts⟩ = ⟨next, ts⟩ := by
  simp only [advance, tag]

theorem advance_prepend_cons (h : t.tag ≠ .eof) : (c.prepend (t :: ts)).advance = c.prepend ts :=
  advance_cons h

end Cursor

namespace Parser

/-! ## Single tokens -/

section Tokens

variable {α : Type} {c : Cursor} {t : Token} {ts : List Token}

theorem pure_eq {a : α} : (pure a : Parser α) c = .ok a c :=
  rfl

theorem take_prepend (h : t.tag ≠ .eof) : take (c.prepend (t :: ts)) = .ok t (c.prepend ts) := by
  rw [take, get_bind]
  show EStateM.Result.ok t (c.prepend (t :: ts)).advance = _
  rw [Cursor.advance_prepend_cons h]

theorem expect_prepend {tag : Tag} (ht : t.tag = tag) (h : tag ≠ .eof) :
    expect tag (c.prepend (t :: ts)) = .ok t (c.prepend ts) := by
  rw [expect, get_bind, Cursor.tag_prepend_cons, if_pos ht]
  exact take_prepend (ht ▸ h)

theorem expect_mark {tag : Tag} (h : tag ≠ .eof) :
    expect tag (c.prepend (mark tag :: ts)) = .ok (mark tag) (c.prepend ts) :=
  expect_prepend rfl h

theorem takeName_prepend {name : String} :
    takeName (c.prepend (ofText .name name :: ts)) = .ok name (c.prepend ts) := by
  rw [takeName, get_bind, Cursor.tag_prepend_cons, if_pos (Token.tag_ofText _ _), bind_ok (take_prepend (by simp))]
  rfl

end Tokens

/-! ## Levels -/

/-- Tokens that do not prolong an expression of a level. -/
def Stops (level : Level) (tag : Tag) : Prop :=
  tag ≠ .lparen ∧ ∀ layer : Layer, level.rank ≤ layer.rank → layer.operator? tag = none

/-- Tokens that prolong no expression: those that close something or begin a statement. -/
def closes : Tag → Bool
  | .rparen | .comma | .thenKw | .doKw | .elseKw | .endKw | .eof => true
  | tag => tag.startsStatement

theorem stops_of_closes {level : Level} {tag : Tag} (h : closes tag = true) : Stops level tag := by
  have hop : ∀ layer : Layer, layer.operator? tag = none := by
    intro layer
    cases tag <;> first | (cases layer <;> rfl) | cases h
  refine ⟨?_, fun layer _ => hop layer⟩
  rintro rfl
  cases h

theorem Stops.operands {layer : Layer} {tag : Tag} (h : Stops (.layer layer) tag) : Stops layer.operands tag := by
  refine ⟨h.1, fun tighter hle => h.2 tighter ?_⟩
  rw [Layer.rank_operands] at hle
  exact Nat.le_of_succ_le hle

/-- An operator of a layer does not prolong the operand before it. -/
theorem stops_operator (op : BinaryOp) : Stops op.layer.operands op.tag := by
  refine ⟨by cases op <;> decide, ?_⟩
  intro layer hle
  rw [Layer.rank_operands] at hle
  cases op <;> cases layer <;> first | rfl | exact absurd hle (by decide)

/-- The parser of a level. -/
def atLevel (inner : Parser Expr) (bound : Nat) : Level → Parser Expr
  | .primary => primary inner bound
  | .prefixes => unary inner bound
  | .layer layer => chain layer bound (atLevel inner bound layer.operands)
termination_by level => 7 - level.rank
decreasing_by
  rw [Layer.rank_operands]
  cases layer <;> decide

theorem expr_succ (bound : Nat) : expr (bound + 1) = atLevel (expr bound) bound .whole := by
  simp only [expr, layers, Level.whole, atLevel, Layer.operands]

/-! ## Expressions -/

theorem chainTail_stop {layer : Layer} {operand : Parser Expr} {c : Cursor} (h : layer.operator? c.tag = none)
    (bound : Nat) : chainTail layer operand bound c = .ok ([], []) c := by
  cases bound with
  | zero => rfl
  | succ bound =>
      simp only [chainTail, get_bind, h]
      rfl

theorem chainTail_operator {operand : Parser Expr} {op : BinaryOp} {e : Expr} {es : List Expr} {ops : List BinaryOp}
    {c c₁ c₂ : Cursor} {ts : List Token} {bound : Nat} (he : operand (c.prepend ts) = .ok e c₁)
    (hrest : chainTail op.layer operand bound c₁ = .ok (es, ops) c₂) :
    chainTail op.layer operand (bound + 1) (c.prepend (mark op.tag :: ts)) = .ok (e :: es, op :: ops) c₂ := by
  have hop : op.layer.operator? (mark op.tag).tag = some op := Layer.operator?_eq_some_iff.2 ⟨rfl, rfl⟩
  have htag : (mark op.tag).tag ≠ .eof := by cases op <;> decide
  rw [chainTail, get_bind, Cursor.tag_prepend_cons]
  simp only [hop]
  rw [bind_ok (take_prepend htag), bind_ok he, bind_ok hrest]
  rfl

theorem unaryOps_prepend (ops : List UnaryOp) {c : Cursor} (h : UnaryOp.ofTag? c.tag = none) {bound : Nat}
    (hbound : ops.length ≤ bound) : unaryOps bound (c.prepend (ops.map (mark ·.tag))) = .ok ops c := by
  induction ops generalizing bound with
  | nil =>
      cases bound with
      | zero => rfl
      | succ bound =>
          simp only [unaryOps, List.map_nil, Cursor.prepend_nil, get_bind, h]
          rfl
  | cons op ops ih =>
      cases bound with
      | zero => cases hbound
      | succ bound =>
          have hop : UnaryOp.ofTag? (mark op.tag).tag = some op := UnaryOp.ofTag?_eq_some_iff.2 rfl
          have htag : (mark op.tag).tag ≠ .eof := by cases op <;> decide
          rw [List.map_cons, unaryOps, get_bind, Cursor.tag_prepend_cons]
          simp only [hop]
          rw [bind_ok (take_prepend htag), bind_ok (ih (Nat.le_of_succ_le_succ hbound))]
          rfl

/-- A primary does not begin with a prefix operator. -/
theorem ofTag?_primary {e : Expr} (h : e.wellFormed .primary = true) (c : Cursor) :
    UnaryOp.ofTag? (c.prepend e.tokens).tag = none := by
  cases e with
  | chain layer operands ops => simp [Expr.wellFormed] at h
  | unary ops operand => simp [Expr.wellFormed] at h
  | name id => simp [Expr.tokens, UnaryOp.ofTag?]
  | literal kind text => cases kind <;> simp [Expr.tokens, LiteralKind.tag, UnaryOp.ofTag?]
  | paren inner => simp [Expr.tokens, UnaryOp.ofTag?]
  | call callee args => simp [Expr.tokens, UnaryOp.ofTag?]

theorem moreArguments_stop {inner : Parser Expr} {c : Cursor} (h : c.tag = .rparen) (bound : Nat) :
    moreArguments inner bound c = .ok [] c := by
  cases bound with
  | zero => rfl
  | succ bound =>
      rw [moreArguments, get_bind]
      simp only [h, true_or, if_true]
      rfl

theorem moreArguments_comma {inner : Parser Expr} {e : Expr} {es : List Expr} {c c₁ c₂ : Cursor} {ts : List Token}
    {bound : Nat} (he : inner (c.prepend ts) = .ok e c₁) (hrest : moreArguments inner bound c₁ = .ok es c₂) :
    moreArguments inner (bound + 1) (c.prepend (mark .comma :: ts)) = .ok (e :: es) c₂ := by
  rw [moreArguments, get_bind]
  simp only [Cursor.tag_prepend_cons, Token.tag_mark, reduceCtorEq, or_self, if_false]
  rw [bind_ok (expect_mark (by decide)), bind_ok he, bind_ok hrest]
  rfl

theorem callee_nil {inner : Parser Expr} {name : String} {c : Cursor} {bound : Nat} :
    callee inner bound (c.prepend [ofText .name name, mark .lparen, mark .rparen]) = .ok (name, []) c := by
  rw [callee, bind_ok takeName_prepend, bind_ok (expect_mark (by decide)), get_bind]
  have htag : (c.prepend [mark .rparen]).tag = .rparen := rfl
  simp only [htag, if_true]
  rw [bind_ok pure_eq, bind_ok (expect_mark (by decide))]
  rfl

theorem callee_cons {inner : Parser Expr} {name : String} {e : Expr} {es : List Expr} {c c₁ : Cursor} {bound : Nat}
    {ts : List Token} (hfirst : (c.prepend (ts ++ [mark .rparen])).tag ≠ .rparen)
    (he : inner (c.prepend (ts ++ [mark .rparen])) = .ok e c₁)
    (hes : moreArguments inner bound c₁ = .ok es (c.prepend [mark .rparen])) :
    callee inner bound (c.prepend (ofText .name name :: mark .lparen :: (ts ++ [mark .rparen])))
      = .ok (name, e :: es) c := by
  rw [callee, bind_ok takeName_prepend, bind_ok (expect_mark (by decide)), get_bind]
  simp only [hfirst, if_false]
  rw [bind_ok he, bind_ok hes, bind_ok pure_eq, bind_ok (expect_mark (by decide))]
  rfl

theorem ne_assign_of_closes {tag : Tag} (h : closes tag = true) : tag ≠ .assign := by
  rintro rfl
  cases h

theorem ne_rparen_of_starts {tag : Tag} (h : tag.startsExpression = true) : tag ≠ .rparen := by
  rintro rfl
  cases h

/-- An expression begins with a token that can begin one. If that is a name, no `=` follows it. -/
theorem starts_expr : (e : Expr) → ∀ {level : Level} {c : Cursor}, e.wellFormed level = true → c.tag ≠ .assign →
    (c.prepend e.tokens).tag.startsExpression = true
      ∧ ((c.prepend e.tokens).tag = .name → (c.prepend e.tokens).nextTag ≠ .assign)
  | .chain layer [] ops, level, c, hwf, hc => by
      simp [Expr.wellFormed, Expr.chainWellFormed] at hwf
  | .chain layer (e :: es) ops, level, c, hwf, hc => by
      simp only [Expr.wellFormed, Expr.chainWellFormed, Bool.and_eq_true] at hwf
      rw [Expr.tokens, Expr.chainTokens, Cursor.prepend_append]
      refine starts_expr e hwf.2.1 ?_
      match es, ops with
      | [], _ => simpa [Expr.tailTokens] using hc
      | _ :: _, [] => simpa [Expr.tailTokens] using hc
      | _ :: _, op :: _ =>
          rw [Expr.tailTokens, Cursor.tag_prepend_cons]
          cases op <;> decide
  | .unary [] operand, level, c, hwf, hc => by
      simp only [Expr.wellFormed, Bool.and_eq_true] at hwf
      exact starts_expr operand hwf.2 hc
  | .unary (op :: ops) operand, level, c, hwf, hc => by
      rw [Expr.tokens, List.map_cons, List.cons_append, Cursor.tag_prepend_cons]
      cases op <;> simp [UnaryOp.tag, Tag.startsExpression]
  | .name id, level, c, hwf, hc => by
      exact ⟨rfl, fun _ => hc⟩
  | .literal kind text, level, c, hwf, hc => by
      cases kind <;> simp [Expr.tokens, LiteralKind.tag, Tag.startsExpression]
  | .paren inner, level, c, hwf, hc => by
      simp [Expr.tokens, Tag.startsExpression]
  | .call name args, level, c, hwf, hc => by
      simp [Expr.tokens, Tag.startsExpression]

/-- What follows an operand of a chain does not prolong it. -/
theorem stops_tail {layer : Layer} {es : List Expr} {ops : List BinaryOp} {c : Cursor}
    (hwf : Expr.tailWellFormed layer es ops = true) (hc : Stops (.layer layer) c.tag) :
    Stops layer.operands (c.prepend (Expr.tailTokens es ops)).tag := by
  match es, ops with
  | [], [] => exact hc.operands
  | [], _ :: _ => simp [Expr.tailWellFormed] at hwf
  | _ :: _, [] => simp [Expr.tailWellFormed] at hwf
  | e :: es, op :: ops =>
      simp only [Expr.tailWellFormed, Bool.and_eq_true, beq_iff_eq] at hwf
      obtain ⟨⟨rfl, -⟩, -⟩ := hwf
      exact stops_operator op

mutual

/-- The tokens of an expression are read back at its level. -/
theorem read_expr : (e : Expr) → ∀ {level : Level} {bound : Nat} {c : Cursor}, e.wellFormed level = true →
    e.tokens.length ≤ bound → Stops level c.tag → atLevel (expr bound) bound level (c.prepend e.tokens) = .ok e c
  | .chain layer [] ops, level, bound, c, hwf, hbound, hc => by
      simp [Expr.wellFormed, Expr.chainWellFormed] at hwf
  | .chain layer (e :: es) ops, level, bound, c, hwf, hbound, hc => by
      simp only [Expr.wellFormed, Expr.chainWellFormed, Bool.and_eq_true, beq_iff_eq] at hwf
      obtain ⟨rfl, he, hes⟩ := hwf
      rw [Expr.tokens, Expr.chainTokens, List.length_append] at hbound
      have htail := read_tail es hes (Nat.le_of_add_left_le hbound) (Nat.le_of_add_left_le hbound) hc
      have hread := read_expr e he (Nat.le_of_add_right_le hbound) (stops_tail hes hc)
      rw [atLevel, chain, Expr.tokens, Expr.chainTokens, Cursor.prepend_append, bind_ok hread, bind_ok htail]
      rfl
  | .unary ops operand, level, bound, c, hwf, hbound, hc => by
      simp only [Expr.wellFormed, Bool.and_eq_true, beq_iff_eq] at hwf
      obtain ⟨rfl, hwf⟩ := hwf
      rw [Expr.tokens, List.length_append, List.length_map] at hbound
      have hread := read_expr operand hwf (Nat.le_of_add_left_le hbound) ⟨hc.1, fun layer hle => ?_⟩
      · rw [atLevel] at hread
        rw [atLevel, unary, Expr.tokens, Cursor.prepend_append,
          bind_ok (unaryOps_prepend ops (ofTag?_primary hwf c) (Nat.le_of_add_right_le hbound)), bind_ok hread]
        rfl
      · cases layer <;> exact absurd hle (by decide)
  | .name id, level, bound, c, hwf, hbound, hc => by
      simp only [Expr.wellFormed, beq_iff_eq] at hwf
      subst hwf
      have hnext : (c.prepend [ofText .name id]).nextTag ≠ .lparen := hc.1
      rw [atLevel, primary, Expr.tokens, get_bind]
      simp only [Cursor.tag_prepend_cons, Token.tag_ofText, hnext, if_false]
      rw [bind_ok (take_prepend (by simp))]
      rfl
  | .literal kind text, level, bound, c, hwf, hbound, hc => by
      simp only [Expr.wellFormed, beq_iff_eq] at hwf
      subst hwf
      rw [atLevel, primary, Expr.tokens, get_bind]
      cases kind <;> exact bind_ok (take_prepend (by simp [LiteralKind.tag]))
  | .paren inner, level, bound, c, hwf, hbound, hc => by
      simp only [Expr.wellFormed, Bool.and_eq_true, beq_iff_eq] at hwf
      obtain ⟨rfl, hwf⟩ := hwf
      rw [Expr.tokens, List.length_cons, List.length_append, List.length_singleton] at hbound
      obtain ⟨bound, rfl⟩ : ∃ n, bound = n + 1 := ⟨bound - 1, by omega⟩
      have hread := @read_expr inner .whole bound (c.prepend [mark .rparen]) hwf (by omega) (stops_of_closes rfl)
      rw [← expr_succ] at hread
      rw [atLevel, primary, Expr.tokens, get_bind]
      simp only [Cursor.tag_prepend_cons, Token.tag_mark]
      rw [bind_ok (take_prepend (by decide)), Cursor.prepend_append, bind_ok hread, bind_ok (expect_mark (by decide))]
      rfl
  | .call name args, level, bound, c, hwf, hbound, hc => by
      simp only [Expr.wellFormed, Bool.and_eq_true, beq_iff_eq] at hwf
      obtain ⟨rfl, hwf⟩ := hwf
      rw [Expr.tokens, List.length_cons, List.length_cons, List.length_append, List.length_singleton] at hbound
      have hread := @read_callee args name bound c hwf (by omega)
      have hnext : (c.prepend (ofText .name name :: mark .lparen :: (Expr.argTokens args ++ [mark .rparen]))).nextTag
          = .lparen := rfl
      rw [atLevel, primary, Expr.tokens, get_bind]
      simp only [Cursor.tag_prepend_cons, Token.tag_ofText, hnext, if_true]
      rw [bind_ok hread]
      rfl

theorem read_tail : (es : List Expr) → ∀ {ops : List BinaryOp} {layer : Layer} {bound k : Nat} {c : Cursor},
    Expr.tailWellFormed layer es ops = true → (Expr.tailTokens es ops).length ≤ k →
    (Expr.tailTokens es ops).length ≤ bound → Stops (.layer layer) c.tag →
    chainTail layer (atLevel (expr bound) bound layer.operands) k (c.prepend (Expr.tailTokens es ops))
      = .ok (es, ops) c
  | [], [], layer, bound, k, c, hwf, hk, hbound, hc => chainTail_stop (hc.2 layer (Nat.le_refl _)) k
  | [], _ :: _, layer, bound, k, c, hwf, hk, hbound, hc => by
      simp [Expr.tailWellFormed] at hwf
  | _ :: _, [], layer, bound, k, c, hwf, hk, hbound, hc => by
      simp [Expr.tailWellFormed] at hwf
  | e :: es, op :: ops, layer, bound, k, c, hwf, hk, hbound, hc => by
      simp only [Expr.tailWellFormed, Bool.and_eq_true, beq_iff_eq] at hwf
      obtain ⟨⟨rfl, he⟩, hes⟩ := hwf
      rw [Expr.tailTokens, List.length_cons, List.length_append] at hk hbound
      obtain ⟨k, rfl⟩ : ∃ n, k = n + 1 := ⟨k - 1, by omega⟩
      have htail := @read_tail es ops op.layer bound k c hes (by omega) (by omega) hc
      have hread := @read_expr e op.layer.operands bound _ he (by omega) (stops_tail hes hc)
      rw [Expr.tailTokens]
      apply chainTail_operator _ htail
      rw [Cursor.prepend_append]
      exact hread

theorem read_callee : (args : List Expr) → ∀ {name : String} {bound : Nat} {c : Cursor},
    Expr.argsWellFormed args = true → (Expr.argTokens args).length < bound →
    callee (expr bound) bound (c.prepend (ofText .name name :: mark .lparen :: (Expr.argTokens args ++ [mark .rparen])))
      = .ok (name, args) c
  | [], name, bound, c, hwf, hbound => callee_nil
  | e :: es, name, bound, c, hwf, hbound => by
      simp only [Expr.argsWellFormed, Bool.and_eq_true] at hwf
      rw [Expr.argTokens, List.length_append] at hbound
      obtain ⟨bound, rfl⟩ : ∃ n, bound = n + 1 := ⟨bound - 1, by omega⟩
      have hmore := @read_moreArguments es (bound + 1) (bound + 1) (c.prepend [mark .rparen]) hwf.2 (by omega) (by omega) rfl
      have hstop : closes ((c.prepend [mark .rparen]).prepend (Expr.moreArgTokens es)).tag = true := by
        cases es <;> rfl
      have hread := @read_expr e .whole bound _ hwf.1 (by omega) (stops_of_closes hstop)
      rw [← expr_succ] at hread
      rw [Expr.argTokens]
      refine callee_cons ?_ ?_ hmore
      · rw [List.append_assoc, Cursor.prepend_append, Cursor.prepend_append]
        exact ne_rparen_of_starts (starts_expr e hwf.1 (ne_assign_of_closes hstop)).1
      · rw [List.append_assoc, Cursor.prepend_append, Cursor.prepend_append]
        exact hread

theorem read_moreArguments : (es : List Expr) → ∀ {bound k : Nat} {c : Cursor}, Expr.argsWellFormed es = true →
    (Expr.moreArgTokens es).length ≤ k → (Expr.moreArgTokens es).length ≤ bound → c.tag = .rparen →
    moreArguments (expr bound) k (c.prepend (Expr.moreArgTokens es)) = .ok es c
  | [], bound, k, c, hwf, hk, hbound, hc => moreArguments_stop hc k
  | e :: es, bound, k, c, hwf, hk, hbound, hc => by
      simp only [Expr.argsWellFormed, Bool.and_eq_true] at hwf
      rw [Expr.moreArgTokens, List.length_cons, List.length_append] at hk hbound
      obtain ⟨k, rfl⟩ : ∃ n, k = n + 1 := ⟨k - 1, by omega⟩
      obtain ⟨bound, rfl⟩ : ∃ n, bound = n + 1 := ⟨bound - 1, by omega⟩
      have hmore := @read_moreArguments es (bound + 1) k c hwf.2 (by omega) (by omega) hc
      have hstop : closes (c.prepend (Expr.moreArgTokens es)).tag = true := by
        cases es with
        | nil => rw [Expr.moreArgTokens, Cursor.prepend_nil, hc]; rfl
        | cons e es => rfl
      have hread := @read_expr e .whole bound _ hwf.1 (by omega) (stops_of_closes hstop)
      rw [← expr_succ] at hread
      rw [Expr.moreArgTokens]
      apply moreArguments_comma _ hmore
      rw [Cursor.prepend_append]
      exact hread

end

theorem read_whole {e : Expr} {bound : Nat} {c : Cursor} (hwf : e.wellFormed .whole = true)
    (hbound : e.tokens.length < bound) (hc : closes c.tag = true) : expr bound (c.prepend e.tokens) = .ok e c := by
  obtain ⟨bound, rfl⟩ : ∃ n, bound = n + 1 := ⟨bound - 1, by omega⟩
  rw [expr_succ]
  exact read_expr e hwf (Nat.le_of_lt_succ hbound) (stops_of_closes hc)

/-! ## Statements -/

theorem read_moreParams {ps : List String} {bound : Nat} {c : Cursor} (hbound : (moreParamTokens ps).length ≤ bound)
    (hc : c.tag = .rparen) : moreParams bound (c.prepend (moreParamTokens ps)) = .ok ps c := by
  induction ps generalizing bound with
  | nil =>
      cases bound with
      | zero => rfl
      | succ bound =>
          rw [moreParamTokens, Cursor.prepend_nil, moreParams, get_bind]
          simp only [hc, if_true]
          rfl
  | cons p ps ih =>
      rw [moreParamTokens, List.length_cons, List.length_cons] at hbound
      obtain ⟨bound, rfl⟩ : ∃ n, bound = n + 1 := ⟨bound - 1, by omega⟩
      have htag : (c.prepend (mark .comma :: ofText .name p :: moreParamTokens ps)).tag ≠ .rparen := by
        rw [Cursor.tag_prepend_cons]
        decide
      rw [moreParamTokens, moreParams, get_bind]
      simp only [htag, if_false]
      rw [bind_ok (expect_mark (by decide)), bind_ok takeName_prepend, bind_ok (ih (by omega))]
      rfl

theorem read_params {ps : List String} {bound : Nat} {c : Cursor} (hbound : (paramTokens ps).length ≤ bound)
    (hc : c.tag = .rparen) : params bound (c.prepend (paramTokens ps)) = .ok ps c := by
  cases ps with
  | nil =>
      rw [paramTokens, Cursor.prepend_nil, params, get_bind]
      simp only [hc, if_true]
      rfl
  | cons p ps =>
      rw [paramTokens, List.length_cons] at hbound
      have htag : (c.prepend (ofText .name p :: moreParamTokens ps)).tag ≠ .rparen := by
        rw [Cursor.tag_prepend_cons, Token.tag_ofText]
        decide
      rw [paramTokens, params, get_bind]
      simp only [htag, if_false]
      rw [bind_ok takeName_prepend, bind_ok (read_moreParams (by omega) hc)]
      rfl

/-- Whether a return would take a value that begins at a cursor. -/
def takesValue (c : Cursor) : Prop :=
  c.tag.startsExpression = true ∧ (c.tag ≠ .name ∨ c.nextTag ≠ .assign)

/-- A place where statements end. -/
def endsBlock : Tag → Bool
  | .endKw | .elseKw | .eof => true
  | _ => false

theorem closes_of_endsBlock {tag : Tag} (h : endsBlock tag = true) : closes tag = true := by
  cases tag <;> first | rfl | cases h

theorem closes_of_startsStatement {tag : Tag} (h : tag.startsStatement = true) : closes tag = true := by
  cases tag <;> first | rfl | cases h

theorem not_takesValue_of_endsBlock {c : Cursor} (h : endsBlock c.tag = true) : ¬ takesValue c := by
  rintro ⟨hstarts, -⟩
  generalize c.tag = tag at h hstarts
  cases tag <;> simp [endsBlock, Tag.startsExpression] at h hstarts

theorem startsStatement_tokens (s : Stmt) (c : Cursor) : (c.prepend s.tokens).tag.startsStatement = true := by
  cases s with
  | ret value => cases value <;> rfl
  | _ => rfl

theorem length_tokens_pos (s : Stmt) : 0 < s.tokens.length := by
  cases s with
  | ret value => cases value <;> simp [Stmt.tokens]
  | _ => simp [Stmt.tokens]

/-- A return without value takes no value from the statement after it, unless that is a call. -/
theorem not_takesValue_tokens {s : Stmt} (h : s.isCall = false) (c : Cursor) : ¬ takesValue (c.prepend s.tokens) := by
  rintro ⟨hstarts, hname⟩
  cases s with
  | assign name value =>
      rcases hname with hname | hname
      · exact hname rfl
      · exact hname rfl
  | call callee args => cases h
  | ret value => cases value <;> cases hstarts
  | _ => cases hstarts

/-- What may follow a statement. -/
def Follows (s : Stmt) (c : Cursor) : Prop :=
  closes c.tag = true ∧ (s.isBareReturn = true → ¬ takesValue c)

theorem exists_concat_of_bareReturn {body : List Stmt} (h : body.getLast?.any Stmt.isBareReturn = true) :
    ∃ init, body = init ++ [.ret none] := by
  rcases List.eq_nil_or_concat' body with rfl | ⟨init, last, rfl⟩
  · cases h
  · rw [List.getLast?_concat, Option.any_some] at h
    unfold Stmt.isBareReturn at h
    split at h
    · exact ⟨init, rfl⟩
    · cases h

theorem blockWellFormed_of_concat {init : List Stmt} {last : Stmt}
    (h : Stmt.blockWellFormed (init ++ [last]) = true) : Stmt.blockWellFormed init = true := by
  induction init with
  | nil => rfl
  | cons s init ih =>
      rw [List.cons_append] at h
      simp only [Stmt.blockWellFormed, Bool.and_eq_true] at h ⊢
      refine ⟨⟨h.1.1, ?_⟩, ih h.2⟩
      cases init with
      | nil => simp
      | cons next rest => exact h.1.2

theorem read_bareReturn {c : Cursor} {bound : Nat} (hc : ¬ takesValue c) :
    ret bound (c.prepend (Stmt.ret none).tokens) = .ok (.ret none) c := by
  rw [takesValue] at hc
  rw [Stmt.tokens, ret, bind_ok (expect_mark (by decide)), Cursor.prepend_nil, get_bind, if_neg hc]
  rfl

theorem read_return {c : Cursor} {bound : Nat} {value : Expr} (hwf : value.wellFormed .whole = true)
    (hbound : (Stmt.ret (some value)).tokens.length ≤ bound) (hc : closes c.tag = true) :
    ret bound (c.prepend (Stmt.ret (some value)).tokens) = .ok (.ret (some value)) c := by
  rw [Stmt.tokens, List.length_cons] at hbound
  obtain ⟨hstarts, hname⟩ := starts_expr value hwf (ne_assign_of_closes hc)
  have htakes : takesValue (c.prepend value.tokens) := by
    refine ⟨hstarts, ?_⟩
    by_cases h : (c.prepend value.tokens).tag = .name
    · exact .inr (hname h)
    · exact .inl h
  rw [takesValue] at htakes
  rw [Stmt.tokens, ret, bind_ok (expect_mark (by decide)), get_bind, if_pos htakes,
    bind_ok (read_whole hwf (by omega) hc)]
  rfl

theorem read_assign {c : Cursor} {bound : Nat} {name : String} {value : Expr} (hwf : value.wellFormed .whole = true)
    (hbound : (Stmt.assign name value).tokens.length ≤ bound) (hc : closes c.tag = true) :
    assign bound (c.prepend (ofText .name name :: mark .assign :: value.tokens)) = .ok (.assign name value) c := by
  rw [Stmt.tokens, List.length_cons, List.length_cons] at hbound
  rw [assign, bind_ok takeName_prepend, bind_ok (expect_mark (by decide)), bind_ok (read_whole hwf (by omega) hc)]
  rfl

section Statement

variable {bound : Nat} {c : Cursor}
  (hblock : ∀ (stmts : List Stmt) (c : Cursor), Stmt.blockWellFormed stmts = true →
    (Stmt.blockTokens stmts).length < bound → endsBlock c.tag = true →
    block bound (c.prepend (Stmt.blockTokens stmts)) = .ok stmts c)
include hblock

theorem read_loop {test : Expr} {body : List Stmt} (hwf : (Stmt.loop test body).wellFormed = true)
    (hbound : (Stmt.loop test body).tokens.length ≤ bound) :
    loop (block bound) bound (c.prepend (Stmt.loop test body).tokens) = .ok (.loop test body) c := by
  simp only [Stmt.wellFormed, Bool.and_eq_true] at hwf
  simp only [Stmt.tokens, List.length_cons, List.length_append, List.length_nil] at hbound
  rw [Stmt.tokens, loop, bind_ok (expect_mark (by decide)), Cursor.prepend_append,
    bind_ok (read_whole hwf.1 (by omega) rfl), bind_ok (expect_mark (by decide)), Cursor.prepend_append,
    bind_ok (hblock body _ hwf.2 (by omega) rfl), bind_ok (expect_mark (by decide))]
  rfl

theorem read_cond {test : Expr} {thenBlock elseBlock : List Stmt}
    (hwf : (Stmt.cond test thenBlock elseBlock).wellFormed = true)
    (hbound : (Stmt.cond test thenBlock elseBlock).tokens.length ≤ bound) :
    cond (block bound) bound (c.prepend (Stmt.cond test thenBlock elseBlock).tokens)
      = .ok (.cond test thenBlock elseBlock) c := by
  simp only [Stmt.wellFormed, Bool.and_eq_true] at hwf
  obtain ⟨⟨htest, hthen⟩, helse⟩ := hwf
  cases elseBlock with
  | nil =>
      have htag : (c.prepend [mark .endKw]).tag = .endKw := rfl
      simp only [Stmt.tokens, List.isEmpty_nil, if_true, List.nil_append, List.length_cons, List.length_append,
        List.length_nil] at hbound
      simp only [Stmt.tokens, List.isEmpty_nil, if_true, List.nil_append]
      rw [cond, bind_ok (expect_mark (by decide)), Cursor.prepend_append,
        bind_ok (read_whole htest (by omega) rfl), bind_ok (expect_mark (by decide)), Cursor.prepend_append,
        bind_ok (hblock thenBlock _ hthen (by omega) rfl), get_bind]
      simp only [htag, if_true]
      rw [bind_ok pure_eq, bind_ok (expect_mark (by decide))]
      rfl
  | cons s rest =>
      have htag : (c.prepend (mark .elseKw :: (Stmt.blockTokens (s :: rest) ++ [mark .endKw]))).tag ≠ .endKw := by
        rw [Cursor.tag_prepend_cons]
        decide
      simp only [Stmt.tokens, List.isEmpty_cons, Bool.false_eq_true, if_false, List.cons_append, List.length_cons,
        List.length_append, List.length_nil] at hbound
      simp only [Stmt.tokens, List.isEmpty_cons, Bool.false_eq_true, if_false, List.cons_append]
      rw [cond, bind_ok (expect_mark (by decide)), Cursor.prepend_append,
        bind_ok (read_whole htest (by omega) rfl), bind_ok (expect_mark (by decide)), Cursor.prepend_append,
        bind_ok (hblock thenBlock _ hthen (by omega) rfl), get_bind]
      simp only [htag, if_false]
      rw [bind_ok (expect_mark (by decide)), Cursor.prepend_append, bind_ok (hblock (s :: rest) _ helse (by omega) rfl),
        bind_ok (expect_mark (by decide))]
      rfl

theorem read_function {name : String} {ps : List String} {body : List Stmt}
    (hwf : (Stmt.function name ps body).wellFormed = true)
    (hbound : (Stmt.function name ps body).tokens.length ≤ bound) :
    function (block bound) bound (c.prepend (Stmt.function name ps body).tokens) = .ok (.function name ps body) c := by
  simp only [Stmt.wellFormed, Bool.and_eq_true] at hwf
  obtain ⟨init, rfl⟩ := exists_concat_of_bareReturn hwf.1
  have hinit := blockWellFormed_of_concat hwf.2
  simp only [Stmt.tokens, Stmt.bodyTokens_concat, List.length_cons, List.length_append, List.length_nil] at hbound
  rw [Stmt.tokens, Stmt.bodyTokens_concat, function, bind_ok (expect_mark (by decide)), bind_ok takeName_prepend,
    bind_ok (expect_mark (by decide)), Cursor.prepend_append, bind_ok (read_params (by omega) rfl),
    bind_ok (expect_mark (by decide)), Cursor.prepend_append, bind_ok (hblock init _ hinit (by omega) rfl),
    bind_ok (expect_mark (by decide))]
  rfl

theorem read_statement {s : Stmt} (hwf : s.wellFormed = true) (hbound : s.tokens.length ≤ bound)
    (hfollows : Follows s c) : statement (block bound) bound (c.prepend s.tokens) = .ok s c := by
  rw [statement, get_bind]
  cases s with
  | cond test thenBlock elseBlock => exact read_cond hblock hwf hbound
  | loop test body => exact read_loop hblock hwf hbound
  | ret value =>
      cases value with
      | none => exact read_bareReturn (hfollows.2 rfl)
      | some value => exact read_return hwf hbound hfollows.1
  | leave => exact bind_ok (take_prepend (by decide))
  | assign name value =>
      have hnext : (c.prepend (ofText .name name :: mark .assign :: value.tokens)).nextTag ≠ .lparen := by
        rw [Cursor.nextTag_prepend_cons, Cursor.tag_prepend_cons]
        decide
      simp only [Stmt.tokens, Cursor.tag_prepend_cons, Token.tag_ofText, hnext]
      exact read_assign hwf hbound hfollows.1
  | function name ps body => exact read_function hblock hwf hbound
  | call callee args =>
      have hnext : (c.prepend (ofText .name callee :: mark .lparen :: (Expr.argTokens args ++ [mark .rparen]))).nextTag
          = .lparen := rfl
      simp only [Stmt.tokens, List.length_cons, List.length_append, List.length_nil] at hbound
      simp only [Stmt.tokens, Cursor.tag_prepend_cons, Token.tag_ofText, hnext, if_true]
      rw [bind_ok (read_callee args hwf (by omega))]
      rfl

end Statement

theorem read_block {bound : Nat} {stmts : List Stmt} {c : Cursor} (hwf : Stmt.blockWellFormed stmts = true)
    (hbound : (Stmt.blockTokens stmts).length < bound) (hc : endsBlock c.tag = true) :
    block bound (c.prepend (Stmt.blockTokens stmts)) = .ok stmts c := by
  induction bound generalizing stmts c with
  | zero => omega
  | succ bound ih =>
      rw [block, get_bind]
      cases stmts with
      | nil =>
          have htag : c.tag.startsStatement = false := by
            generalize c.tag = tag at hc
            cases tag <;> first | rfl | cases hc
          simp only [Stmt.blockTokens, Cursor.prepend_nil, htag, Bool.false_eq_true, if_false]
          rfl
      | cons s rest =>
          simp only [Stmt.blockWellFormed, Bool.and_eq_true] at hwf
          obtain ⟨⟨hs, hreturn⟩, hrest⟩ := hwf
          rw [Stmt.blockTokens, List.length_append] at hbound
          have hpos := length_tokens_pos s
          rw [Stmt.blockTokens, Cursor.prepend_append, if_pos (startsStatement_tokens s _),
            bind_ok (read_statement (fun stmts c hwf hbound hc => ih hwf hbound hc) hs (by omega) ?_),
            bind_ok (ih hrest (by omega) hc)]
          · rfl
          · cases rest with
            | nil => exact ⟨closes_of_endsBlock hc, fun _ => not_takesValue_of_endsBlock hc⟩
            | cons next rest =>
                rw [Stmt.blockTokens, Cursor.prepend_append]
                refine ⟨closes_of_startsStatement (startsStatement_tokens next _), ?_⟩
                intro hbare
                apply not_takesValue_tokens
                simpa [hbare] using hreturn

end Parser

/-- The cursor over tokens stands before the end mark. -/
theorem Cursor.ofTokens_eq (tokens : List Token) :
    ∃ mark : Token, mark.tag = .eof ∧ ofTokens tokens = Cursor.prepend ⟨mark, []⟩ tokens := by
  cases tokens with
  | nil => exact ⟨_, rfl, rfl⟩
  | cons t ts => exact ⟨endMark (ts.getLastD t), rfl, by rw [prepend_cons_eq, ofTokens]⟩

theorem parse_unparse {program : List Stmt} (h : Stmt.blockWellFormed program = true) :
    parse (unparse program) = .ok program := by
  obtain ⟨mark, hmark, hcursor⟩ := Cursor.ofTokens_eq (unparse program)
  have hbound : (Stmt.blockTokens program).length < (Cursor.ofTokens (unparse program)).upcoming.length + 1 := by
    rw [Cursor.length_upcoming_ofTokens, unparse]
    exact Nat.lt_succ_self _
  have hread := @Parser.read_block _ program ⟨mark, []⟩ h hbound (by rw [Cursor.tag, hmark]; rfl)
  rw [← unparse, ← hcursor] at hread
  have htag : Cursor.tag ⟨mark, []⟩ = .eof := hmark
  have hend : Parser.expect .eof ⟨mark, []⟩ = .ok mark (Cursor.advance ⟨mark, []⟩) := by
    rw [Parser.expect, get_bind, if_pos htag]
    rfl
  have hprogram : Parser.program (Cursor.ofTokens (unparse program)) = .ok program (Cursor.advance ⟨mark, []⟩) := by
    rw [Parser.program, get_bind, bind_ok hread, bind_ok hend]
    rfl
  rw [parse, hprogram]

end Scriptlet
