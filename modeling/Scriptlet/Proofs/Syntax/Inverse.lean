import Mathlib.Tactic
import Scriptlet.Proofs.Syntax.Reading

/-!
# What a program is read from

A program that was read is well formed, and its tokens are those that it was read from, but for their positions, the
texts of tokens that a tag determines, and branches after `else` that hold nothing.
-/

namespace Scriptlet

open Token (ofText mark)

/-! ## Cursors that end -/

/-- The tokens from a cursor on. -/
def Cursor.toList (c : Cursor) : List Token :=
  c.current :: c.upcoming

/-- The last token is an end mark, and no other one is. -/
def Terminated : List Token → Prop
  | [] => False
  | [t] => t.tag = .eof
  | t :: rest => t.tag ≠ .eof ∧ Terminated rest

theorem terminated_concat {ts : List Token} (h : ∀ t ∈ ts, t.tag ≠ .eof) {last : Token} (hlast : last.tag = .eof) :
    Terminated (ts ++ [last]) := by
  induction ts with
  | nil => exact hlast
  | cons t ts ih =>
      obtain ⟨ht, hts⟩ := List.forall_mem_cons.1 h
      cases ts with
      | nil => exact ⟨ht, hlast⟩
      | cons next rest => exact ⟨ht, ih hts⟩

theorem Cursor.toList_advance {c : Cursor} (hc : Terminated c.toList) (htag : c.tag ≠ .eof) :
    c.toList = c.current :: c.advance.toList ∧ Terminated c.advance.toList := by
  obtain ⟨current, upcoming⟩ := c
  cases upcoming with
  | nil => exact absurd hc htag
  | cons next rest =>
      rw [Cursor.advance_cons htag]
      exact ⟨rfl, hc.2⟩

/-! ## Parsers and the tokens they pass -/

namespace Parser

/-- A parser that succeeds at a cursor has passed tokens which, with its result and the cursor after it, are as told. -/
def Spells {α : Type} (c : Cursor) (p : Parser α) (Q : α → List Token → Cursor → Prop) : Prop :=
  Terminated c.toList → ∀ a c', p c = .ok a c' →
    ∃ ts, c.toList = ts ++ c'.toList ∧ Terminated c'.toList ∧ Q a ts c'

section Rules

variable {α β : Type} {c : Cursor} {p : Parser α} {f : α → Parser β} {P : α → List Token → Cursor → Prop}
  {Q : β → List Token → Cursor → Prop}

theorem Spells.pure {b : β} (h : Q b [] c) : Spells c (pure b) Q := by
  intro hc a c' ha
  cases ha
  exact ⟨[], rfl, hc, h⟩

theorem Spells.bind (hp : Spells c p P) (hf : ∀ a ts c', P a ts c' → Spells c' (f a) fun b us => Q b (ts ++ us)) :
    Spells c (p >>= f) Q := by
  intro hc b c₂ hb
  cases ha : p c with
  | error e c₁ =>
      simp only [Bind.bind, EStateM.bind, ha] at hb
      cases hb
  | ok a c₁ =>
      rw [bind_ok ha] at hb
      obtain ⟨ts, hts, hc₁, hP⟩ := hp hc a c₁ ha
      obtain ⟨us, hus, hc₂, hQ⟩ := hf a ts c₁ hP hc₁ b c₂ hb
      exact ⟨ts ++ us, by rw [hts, hus, List.append_assoc], hc₂, hQ⟩

theorem Spells.get {f : Cursor → Parser β} (h : Spells c (f c) Q) : Spells c (get >>= f) Q :=
  h

theorem Spells.mono {Q' : β → List Token → Cursor → Prop} {p : Parser β} (hp : Spells c p Q)
    (h : ∀ b ts c', Q b ts c' → Q' b ts c') : Spells c p Q' := by
  intro hc b c' hb
  obtain ⟨ts, hts, hc', hQ⟩ := hp hc b c' hb
  exact ⟨ts, hts, hc', h b ts c' hQ⟩

theorem spells_unexpected : Spells c (unexpected : Parser β) Q := by
  intro _ b c' hb
  cases hb

theorem spells_take (h : c.tag ≠ .eof) : Spells c take fun t ts _ => ts = [t] ∧ t = c.current := by
  intro hc t c' ht
  cases ht
  obtain ⟨htokens, hends⟩ := Cursor.toList_advance hc h
  exact ⟨[c.current], htokens, hends, rfl, rfl⟩

theorem spells_expect {tag : Tag} (h : tag ≠ .eof) : Spells c (expect tag) fun t ts _ => ts = [t] ∧ t.tag = tag := by
  apply Spells.get
  split
  · rename_i htag
    exact (spells_take (htag ▸ h)).mono fun t ts _ ht => ⟨ht.1, ht.2 ▸ htag⟩
  · intro _ b c' hb
    cases hb

theorem spells_takeName :
    Spells c takeName fun name ts _ => ∃ t : Token, ts = [t] ∧ t.tag = .name ∧ t.text = name := by
  apply Spells.get
  split
  · rename_i htag
    refine (spells_take (by rw [htag]; decide)).bind ?_
    rintro t ts c' ⟨rfl, rfl⟩
    exact .pure ⟨c.current, rfl, htag, rfl⟩
  · exact spells_unexpected

end Rules

end Parser

/-! ## Skeletons -/

/-- Tokens that spell the same: the tags agree, and so do the texts of names and literals. -/
def SameSkeleton (ts us : List Token) : Prop :=
  ts.map Token.skeleton = us.map Token.skeleton

namespace SameSkeleton

variable {t u : Token} {ts us ts' us' : List Token}

theorem nil : SameSkeleton [] [] :=
  rfl

theorem cons (ht : t.skeleton = u.skeleton) (hts : SameSkeleton ts us) : SameSkeleton (t :: ts) (u :: us) := by
  rw [SameSkeleton, List.map_cons, List.map_cons, ht, hts]

theorem append (hts : SameSkeleton ts us) (hts' : SameSkeleton ts' us') : SameSkeleton (ts ++ ts') (us ++ us') := by
  rw [SameSkeleton, List.map_append, List.map_append, hts, hts']

/-- The same tags stand where the skeletons are the same. -/
theorem forall_tag (h : SameSkeleton ts us) {P : Tag → Prop}
    (hus : ∀ t ∈ us, P t.tag) : ∀ t ∈ ts, P t.tag := by
  intro t ht
  have hmem : t.skeleton ∈ us.map Token.skeleton := h ▸ List.mem_map_of_mem ht
  obtain ⟨u, hu, hskeleton⟩ := List.mem_map.1 hmem
  have htag : u.tag = t.tag := congrArg Prod.fst hskeleton
  exact htag ▸ hus u hu

end SameSkeleton

/-- Tags of tokens whose text counts. -/
def Tag.hasText : Tag → Bool
  | .name | .boolean | .number | .string | .nilKw => true
  | _ => false

theorem Token.skeleton_mark {t : Token} {tag : Tag} (ht : t.tag = tag) (htext : tag.hasText = false) :
    t.skeleton = (mark tag).skeleton := by
  subst ht
  have hnone : ∀ u : Token, u.tag.hasText = false → u.skeleton = (u.tag, none) := by
    intro u hu
    obtain ⟨tag, position, text⟩ := u
    cases tag <;> first | rfl | cases hu
  rw [hnone t htext, hnone (mark t.tag) htext]
  rfl

theorem Token.skeleton_ofText {t : Token} {tag : Tag} {text : String} (ht : t.tag = tag) (htext : t.text = text) :
    t.skeleton = (ofText tag text).skeleton := by
  subst ht htext
  rfl

namespace Parser

/-! ## Expressions -/

/-- An expression of a level and the tokens that it was read from. -/
def ReadAt (level : Level) (e : Expr) (ts : List Token) (_ : Cursor) : Prop :=
  e.wellFormed level = true ∧ SameSkeleton ts e.tokens

theorem spells_chainTail {layer : Layer} {operand : Parser Expr}
    (hoperand : ∀ c, Spells c operand (ReadAt layer.operands)) (bound : Nat) (c : Cursor) :
    Spells c (chainTail layer operand bound) fun tail ts _ =>
      Expr.tailWellFormed layer tail.1 tail.2 = true ∧ SameSkeleton ts (Expr.tailTokens tail.1 tail.2) := by
  induction bound generalizing c with
  | zero => exact .pure ⟨rfl, .nil⟩
  | succ bound ih =>
      apply Spells.get
      split
      · exact .pure ⟨rfl, .nil⟩
      · rename_i op hop
        obtain ⟨htag, rfl⟩ := Layer.operator?_eq_some_iff.1 hop
        refine (spells_take (by rw [← htag]; cases op <;> decide)).bind ?_
        rintro _ _ c₁ ⟨rfl, rfl⟩
        refine (hoperand c₁).bind ?_
        rintro e ts c₂ ⟨he, hts⟩
        refine (ih c₂).bind ?_
        rintro ⟨es, ops⟩ us c₃ ⟨hes, hus⟩
        refine .pure ⟨?_, ?_⟩
        · simp only [Expr.tailWellFormed, he, hes, beq_self_eq_true, Bool.and_self]
        · rw [List.append_nil]
          exact .cons (Token.skeleton_mark htag.symm (by cases op <;> rfl)) (hts.append hus)

theorem spells_chain {layer : Layer} {operand : Parser Expr}
    (hoperand : ∀ c, Spells c operand (ReadAt layer.operands)) (bound : Nat) (c : Cursor) :
    Spells c (chain layer bound operand) (ReadAt (.layer layer)) := by
  refine (hoperand c).bind ?_
  rintro e ts c₁ ⟨he, hts⟩
  refine (spells_chainTail hoperand bound c₁).bind ?_
  rintro ⟨es, ops⟩ us c₂ ⟨hes, hus⟩
  refine .pure ⟨?_, ?_⟩
  · simp only [Expr.wellFormed, Expr.chainWellFormed, he, hes, beq_self_eq_true, Bool.and_self]
  · rw [List.append_nil]
    exact hts.append hus

theorem spells_unaryOps (bound : Nat) (c : Cursor) :
    Spells c (unaryOps bound) fun ops ts _ => SameSkeleton ts (ops.map (mark ·.tag)) := by
  induction bound generalizing c with
  | zero => exact .pure .nil
  | succ bound ih =>
      apply Spells.get
      split
      · exact .pure .nil
      · rename_i op hop
        have htag := UnaryOp.ofTag?_eq_some_iff.1 hop
        refine (spells_take (by rw [← htag]; cases op <;> decide)).bind ?_
        rintro _ _ c₁ ⟨rfl, rfl⟩
        refine (ih c₁).bind ?_
        intro ops ts c₂ hts
        refine .pure ?_
        rw [List.append_nil]
        exact .cons (Token.skeleton_mark htag.symm (by cases op <;> rfl)) hts

theorem spells_literal {c : Cursor} {kind : LiteralKind} (h : c.tag = kind.tag) :
    Spells c (literal kind) (ReadAt .primary) := by
  refine (spells_take (by rw [h]; cases kind <;> decide)).bind ?_
  rintro _ _ c₁ ⟨rfl, rfl⟩
  refine .pure ⟨rfl, ?_⟩
  exact .cons (Token.skeleton_ofText h rfl) .nil

section Primary

variable {inner : Parser Expr} (hinner : ∀ c, Spells c inner (ReadAt .whole))
include hinner

theorem spells_moreArguments (bound : Nat) (c : Cursor) :
    Spells c (moreArguments inner bound) fun es ts _ =>
      Expr.argsWellFormed es = true ∧ SameSkeleton ts (Expr.moreArgTokens es) := by
  induction bound generalizing c with
  | zero => exact .pure ⟨rfl, .nil⟩
  | succ bound ih =>
      apply Spells.get
      dsimp only
      split
      · exact .pure ⟨rfl, .nil⟩
      · refine (spells_expect (by decide)).bind ?_
        rintro comma _ c₁ ⟨rfl, hcomma⟩
        refine (hinner c₁).bind ?_
        rintro e ts c₂ ⟨he, hts⟩
        refine (ih c₂).bind ?_
        rintro es us c₃ ⟨hes, hus⟩
        refine .pure ⟨?_, ?_⟩
        · simp only [Expr.argsWellFormed, he, hes, Bool.and_self]
        · rw [List.append_nil]
          exact .cons (Token.skeleton_mark hcomma rfl) (hts.append hus)

theorem spells_callee (bound : Nat) (c : Cursor) :
    Spells c (callee inner bound) fun call ts _ =>
      Expr.argsWellFormed call.2 = true ∧ SameSkeleton ts (Expr.call call.1 call.2).tokens := by
  refine spells_takeName.bind ?_
  rintro name _ c₁ ⟨t, rfl, htag, htext⟩
  refine (spells_expect (by decide)).bind ?_
  rintro lparen _ c₂ ⟨rfl, hlparen⟩
  have hfinish : ∀ (args : List Expr) (ts : List Token) (c₃ : Cursor), Expr.argsWellFormed args = true →
      SameSkeleton ts (Expr.argTokens args) →
      Spells c₃ (do let _ ← expect .rparen; pure (name, args)) fun call us _ =>
        Expr.argsWellFormed call.2 = true
          ∧ SameSkeleton ([t] ++ ([lparen] ++ (ts ++ us))) (Expr.call call.1 call.2).tokens := by
    intro args ts c₃ hargs hts
    refine (spells_expect (by decide)).bind ?_
    rintro rparen _ c₄ ⟨rfl, hrparen⟩
    refine .pure ⟨hargs, ?_⟩
    rw [List.append_nil]
    exact .cons (Token.skeleton_ofText htag htext) (.cons (Token.skeleton_mark hlparen rfl)
      (hts.append (.cons (Token.skeleton_mark hrparen rfl) .nil)))
  apply Spells.get
  split
  · exact hfinish [] [] c₂ rfl .nil
  · refine (hinner c₂).bind ?_
    rintro e ts c₃ ⟨he, hts⟩
    refine (spells_moreArguments hinner bound c₃).bind ?_
    rintro es us c₄ ⟨hes, hus⟩
    refine (hfinish (e :: es) (ts ++ us) c₄ ?_ (hts.append hus)).mono ?_
    · simp only [Expr.argsWellFormed, he, hes, Bool.and_self]
    · intro call vs _ h
      simpa only [List.append_assoc] using h

theorem spells_primary (bound : Nat) (c : Cursor) : Spells c (primary inner bound) (ReadAt .primary) := by
  apply Spells.get
  split
  · rename_i htag
    split
    · refine (spells_callee hinner bound c).bind ?_
      rintro ⟨name, args⟩ ts c₁ ⟨hargs, hts⟩
      refine .pure ⟨?_, ?_⟩
      · simp only [Expr.wellFormed, hargs, beq_self_eq_true, Bool.and_self]
      · rw [List.append_nil]
        exact hts
    · refine (spells_take (by rw [htag]; decide)).bind ?_
      rintro _ _ c₁ ⟨rfl, rfl⟩
      exact .pure ⟨rfl, .cons (Token.skeleton_ofText htag rfl) .nil⟩
  · rename_i htag
    refine (spells_take (by rw [htag]; decide)).bind ?_
    rintro _ _ c₁ ⟨rfl, rfl⟩
    refine (hinner c₁).bind ?_
    rintro e ts c₂ ⟨he, hts⟩
    refine (spells_expect (by decide)).bind ?_
    rintro rparen _ c₃ ⟨rfl, hrparen⟩
    refine .pure ⟨?_, ?_⟩
    · simp only [Expr.wellFormed, he, beq_self_eq_true, Bool.and_self]
    · rw [List.append_nil]
      exact .cons (Token.skeleton_mark htag rfl) (hts.append (.cons (Token.skeleton_mark hrparen rfl) .nil))
  · exact spells_literal ‹_›
  · exact spells_literal ‹_›
  · exact spells_literal ‹_›
  · exact spells_literal ‹_›
  · exact spells_unexpected

theorem spells_unary (bound : Nat) (c : Cursor) : Spells c (unary inner bound) (ReadAt .prefixes) := by
  refine (spells_unaryOps bound c).bind ?_
  intro ops ts c₁ hts
  refine (spells_primary hinner bound c₁).bind ?_
  rintro e us c₂ ⟨he, hus⟩
  refine .pure ⟨?_, ?_⟩
  · simp only [Expr.wellFormed, he, beq_self_eq_true, Bool.and_self]
  · rw [List.append_nil]
    exact hts.append hus

theorem spells_atLevel (bound : Nat) : (level : Level) → ∀ c, Spells c (atLevel inner bound level) (ReadAt level)
  | .primary, c => by
      rw [atLevel]
      exact spells_primary hinner bound c
  | .prefixes, c => by
      rw [atLevel]
      exact spells_unary hinner bound c
  | .layer layer, c => by
      rw [atLevel]
      exact spells_chain (spells_atLevel bound layer.operands) bound c
termination_by level => 7 - level.rank
decreasing_by
  rw [Layer.rank_operands]
  cases layer <;> decide

end Primary

theorem spells_expr (bound : Nat) (c : Cursor) : Spells c (expr bound) (ReadAt .whole) := by
  induction bound generalizing c with
  | zero => exact spells_unexpected
  | succ bound ih =>
      rw [expr_succ]
      exact spells_atLevel ih bound .whole c

/-! ## Branches that hold nothing -/

/-- Tokens that do not end with an `else`. -/
def Sealed (ts : List Token) : Prop :=
  ∀ t ∈ ts.getLast?, t.tag ≠ .elseKw

theorem sealed_append {ts us : List Token} (hus : Sealed us) (hne : us ≠ []) : Sealed (ts ++ us) := by
  rw [Sealed, List.getLast?_append_of_ne_nil _ hne]
  exact hus

theorem sealed_concat (ts : List Token) {t : Token} (ht : t.tag ≠ .elseKw) : Sealed (ts ++ [t]) := by
  intro u hu
  rw [List.getLast?_concat] at hu
  cases hu
  exact ht

theorem dropEmptyElse_cons {t : Token} (ht : t.tag ≠ .elseKw) (ts : List Token) :
    dropEmptyElse (t :: ts) = t :: dropEmptyElse ts := by
  rw [dropEmptyElse, if_neg fun h => ht h.1]

theorem dropEmptyElse_append {ts : List Token} (hts : Sealed ts) (us : List Token) :
    dropEmptyElse (ts ++ us) = dropEmptyElse ts ++ dropEmptyElse us := by
  induction ts with
  | nil => rfl
  | cons t ts ih =>
      cases ts with
      | nil =>
          have ht : t.tag ≠ .elseKw := hts t rfl
          rw [List.cons_append, List.nil_append, dropEmptyElse_cons ht, dropEmptyElse_cons ht]
          rfl
      | cons next rest =>
          have hrest : Sealed (next :: rest) := by
            rw [Sealed, List.getLast?_cons_cons] at hts
            exact hts
          rw [List.cons_append, dropEmptyElse, dropEmptyElse, ih hrest, List.cons_append, List.head?_cons, List.head?_cons]
          split <;> rfl

theorem dropEmptyElse_eq_self {ts : List Token} (h : ∀ t ∈ ts, t.tag ≠ .elseKw) : dropEmptyElse ts = ts := by
  induction ts with
  | nil => rfl
  | cons t ts ih =>
      obtain ⟨ht, hts⟩ := List.forall_mem_cons.1 h
      rw [dropEmptyElse_cons ht, ih hts]

mutual

theorem tag_ne_elseKw : (e : Expr) → ∀ t ∈ e.tokens, t.tag ≠ .elseKw
  | .chain _ operands ops => tag_ne_elseKw_chain operands ops
  | .unary ops operand => by
      intro t ht
      rw [Expr.tokens, List.mem_append, List.mem_map] at ht
      rcases ht with ⟨op, _, rfl⟩ | ht
      · cases op <;> decide
      · exact tag_ne_elseKw operand t ht
  | .name id => by simp [Expr.tokens]
  | .literal kind text => by cases kind <;> simp [Expr.tokens, LiteralKind.tag]
  | .paren inner => by
      have hinner := tag_ne_elseKw inner
      simpa [Expr.tokens, or_imp, forall_and] using hinner
  | .call callee args => by
      have hargs := tag_ne_elseKw_args args
      simpa [Expr.tokens, or_imp, forall_and] using hargs

theorem tag_ne_elseKw_chain : (es : List Expr) → ∀ ops, ∀ t ∈ Expr.chainTokens es ops, t.tag ≠ .elseKw
  | [], ops => by simp [Expr.chainTokens]
  | e :: es, ops => by
      intro t ht
      rw [Expr.chainTokens, List.mem_append] at ht
      exact ht.elim (tag_ne_elseKw e t) (tag_ne_elseKw_tail es ops t)

theorem tag_ne_elseKw_tail : (es : List Expr) → ∀ ops, ∀ t ∈ Expr.tailTokens es ops, t.tag ≠ .elseKw
  | [], ops => by simp [Expr.tailTokens]
  | _ :: _, [] => by simp [Expr.tailTokens]
  | e :: es, op :: ops => by
      intro t ht
      rw [Expr.tailTokens, List.mem_cons, List.mem_append] at ht
      rcases ht with rfl | ht | ht
      · cases op <;> decide
      · exact tag_ne_elseKw e t ht
      · exact tag_ne_elseKw_tail es ops t ht

theorem tag_ne_elseKw_args : (es : List Expr) → ∀ t ∈ Expr.argTokens es, t.tag ≠ .elseKw
  | [] => by simp [Expr.argTokens]
  | e :: es => by
      intro t ht
      rw [Expr.argTokens, List.mem_append] at ht
      exact ht.elim (tag_ne_elseKw e t) (tag_ne_elseKw_more es t)

theorem tag_ne_elseKw_more : (es : List Expr) → ∀ t ∈ Expr.moreArgTokens es, t.tag ≠ .elseKw
  | [] => by simp [Expr.moreArgTokens]
  | e :: es => by
      intro t ht
      rw [Expr.moreArgTokens, List.mem_cons, List.mem_append] at ht
      rcases ht with rfl | ht | ht
      · decide
      · exact tag_ne_elseKw e t ht
      · exact tag_ne_elseKw_more es t ht

end

/-! ## Statements -/

theorem spells_moreParams (bound : Nat) (c : Cursor) :
    Spells c (moreParams bound) fun ps ts _ => SameSkeleton ts (moreParamTokens ps) := by
  induction bound generalizing c with
  | zero => exact .pure .nil
  | succ bound ih =>
      apply Spells.get
      split
      · exact .pure .nil
      · refine (spells_expect (by decide)).bind ?_
        rintro comma _ c₁ ⟨rfl, hcomma⟩
        refine spells_takeName.bind ?_
        rintro p _ c₂ ⟨t, rfl, htag, htext⟩
        refine (ih c₂).bind ?_
        intro ps ts c₃ hts
        refine .pure ?_
        rw [List.append_nil]
        exact .cons (Token.skeleton_mark hcomma rfl) (.cons (Token.skeleton_ofText htag htext) hts)

theorem spells_params (bound : Nat) (c : Cursor) :
    Spells c (params bound) fun ps ts _ => SameSkeleton ts (paramTokens ps) := by
  apply Spells.get
  split
  · exact .pure .nil
  · refine spells_takeName.bind ?_
    rintro p _ c₁ ⟨t, rfl, htag, htext⟩
    refine (spells_moreParams bound c₁).bind ?_
    intro ps ts c₂ hts
    refine .pure ?_
    rw [List.append_nil]
    exact .cons (Token.skeleton_ofText htag htext) hts

/-- A statement, the tokens that it was read from, and the cursors before and after it. -/
structure ReadStmt (c : Cursor) (s : Stmt) (ts : List Token) (c' : Cursor) : Prop where
  wellFormed : s.wellFormed = true
  skeleton : SameSkeleton (dropEmptyElse ts) s.tokens
  isSealed : Sealed ts
  starts : ∃ t us, ts = t :: us ∧ t.tag ≠ .endKw
  value : s.isBareReturn = true → ¬ takesValue c'
  call : s.isCall = true → takesValue c

/-- Statements, the tokens that they were read from, and the cursors before and after them. -/
structure ReadBlock (c : Cursor) (stmts : List Stmt) (ts : List Token) : Prop where
  wellFormed : Stmt.blockWellFormed stmts = true
  skeleton : SameSkeleton (dropEmptyElse ts) (Stmt.blockTokens stmts)
  isSealed : Sealed ts
  empty : stmts = [] → ts = []
  starts : stmts ≠ [] → ∃ t us, ts = t :: us ∧ t.tag ≠ .endKw
  call : stmts.head?.any Stmt.isCall = true → takesValue c

theorem dropEmptyElse_expr {e : Expr} {ts : List Token} (h : SameSkeleton ts e.tokens) : dropEmptyElse ts = ts :=
  dropEmptyElse_eq_self (h.forall_tag (P := (· ≠ .elseKw)) (tag_ne_elseKw e))

theorem sealed_of_forall {ts : List Token} (h : ∀ t ∈ ts, t.tag ≠ .elseKw) : Sealed ts :=
  fun t ht => h t (List.mem_of_getLast? ht)

theorem sealed_expr {e : Expr} {ts : List Token} (h : SameSkeleton ts e.tokens) : Sealed ts :=
  sealed_of_forall (h.forall_tag (P := (· ≠ .elseKw)) (tag_ne_elseKw e))

theorem spells_ret (bound : Nat) (c : Cursor) : Spells c (ret bound) (ReadStmt c) := by
  refine (spells_expect (by decide)).bind ?_
  rintro kw _ c₁ ⟨rfl, hkw⟩
  have hne : kw.tag ≠ .elseKw := by rw [hkw]; decide
  have hstart : ∀ us, ∃ t vs, [kw] ++ us = t :: vs ∧ t.tag ≠ .endKw := fun us => ⟨kw, us, rfl, by rw [hkw]; decide⟩
  apply Spells.get
  split
  · refine (spells_expr bound c₁).bind ?_
    rintro e ts c₂ ⟨he, hts⟩
    refine .pure ⟨he, ?_, ?_, hstart _, nofun, nofun⟩
    · rw [List.append_nil, List.singleton_append, dropEmptyElse_cons hne, dropEmptyElse_expr hts]
      exact .cons (Token.skeleton_mark hkw rfl) hts
    · rw [List.append_nil]
      exact sealed_of_forall (List.forall_mem_cons.2 ⟨hne, hts.forall_tag (P := (· ≠ .elseKw)) (tag_ne_elseKw e)⟩)
  · rename_i hvalue
    refine .pure ⟨rfl, ?_, ?_, hstart _, fun _ => hvalue, nofun⟩
    · rw [List.append_nil, dropEmptyElse_cons hne]
      exact .cons (Token.skeleton_mark hkw rfl) .nil
    · exact sealed_concat [] hne

theorem spells_assign (bound : Nat) (c : Cursor) : Spells c (assign bound) (ReadStmt c) := by
  refine spells_takeName.bind ?_
  rintro name _ c₁ ⟨t, rfl, htag, htext⟩
  refine (spells_expect (by decide)).bind ?_
  rintro eq _ c₂ ⟨rfl, heq⟩
  refine (spells_expr bound c₂).bind ?_
  rintro e ts c₃ ⟨he, hts⟩
  have ht : t.tag ≠ .elseKw := by rw [htag]; decide
  have heq' : eq.tag ≠ .elseKw := by rw [heq]; decide
  refine .pure ⟨he, ?_, ?_, ⟨t, _, rfl, by rw [htag]; decide⟩, nofun, nofun⟩
  · rw [List.append_nil, List.singleton_append, List.singleton_append, dropEmptyElse_cons ht, dropEmptyElse_cons heq',
      dropEmptyElse_expr hts]
    exact .cons (Token.skeleton_ofText htag htext) (.cons (Token.skeleton_mark heq rfl) hts)
  · rw [List.append_nil]
    apply sealed_of_forall
    simp only [List.singleton_append, List.forall_mem_cons]
    exact ⟨ht, heq', hts.forall_tag (P := (· ≠ .elseKw)) (tag_ne_elseKw e)⟩

theorem spells_callStmt (bound : Nat) (c : Cursor) (hname : c.tag = .name) (hlparen : c.nextTag = .lparen) :
    Spells c (do let (name, args) ← callee (expr bound) bound; return Stmt.call name args) (ReadStmt c) := by
  refine (spells_callee (spells_expr bound) bound c).bind ?_
  rintro ⟨name, args⟩ ts c₁ ⟨hargs, hts⟩
  have hstart : ∃ t us, ts = t :: us ∧ t.tag ≠ .endKw := by
    cases ts with
    | nil => cases hts
    | cons t us =>
        have hskeleton := (List.cons.inj hts).1
        have htag : t.tag = .name := congrArg Prod.fst hskeleton
        exact ⟨t, us, rfl, by rw [htag]; decide⟩
  have htakes : takesValue c := by
    refine ⟨by rw [hname]; rfl, .inr ?_⟩
    rw [hlparen]
    decide
  refine .pure ⟨hargs, ?_, ?_, ?_, nofun, fun _ => htakes⟩
  · rw [List.append_nil, dropEmptyElse_expr hts]
    exact hts
  · rw [List.append_nil]
    exact sealed_expr hts
  · rw [List.append_nil]
    exact hstart

/-- Any statements may stand before a return. -/
theorem blockWellFormed_concat {stmts : List Stmt} (h : Stmt.blockWellFormed stmts = true) :
    Stmt.blockWellFormed (stmts ++ [.ret none]) = true := by
  induction stmts with
  | nil => rfl
  | cons s stmts ih =>
      simp only [Stmt.blockWellFormed, Bool.and_eq_true] at h
      have hcall : (stmts ++ [Stmt.ret none]).head?.any Stmt.isCall = stmts.head?.any Stmt.isCall := by
        cases stmts <;> rfl
      simp only [List.cons_append, Stmt.blockWellFormed, Bool.and_eq_true]
      exact ⟨⟨h.1.1, hcall ▸ h.1.2⟩, ih h.2⟩

theorem tag_ne_elseKw_params (ps : List String) : ∀ t ∈ paramTokens ps, t.tag ≠ .elseKw := by
  have hmore : ∀ qs, ∀ t ∈ moreParamTokens qs, t.tag ≠ .elseKw := by
    intro qs
    induction qs with
    | nil => simp [moreParamTokens]
    | cons q qs ih => simpa [moreParamTokens] using ih
  cases ps with
  | nil => simp [paramTokens]
  | cons p ps => simpa [paramTokens] using hmore ps

section Blocks

variable {inner : Parser (List Stmt)} (hinner : ∀ c, Spells c inner fun stmts ts _ => ReadBlock c stmts ts)
include hinner

theorem spells_loop (bound : Nat) (c : Cursor) : Spells c (loop inner bound) (ReadStmt c) := by
  refine (spells_expect (by decide)).bind ?_
  rintro kw _ c₁ ⟨rfl, hkw⟩
  refine (spells_expr bound c₁).bind ?_
  rintro e ts c₂ ⟨he, hts⟩
  refine (spells_expect (by decide)).bind ?_
  rintro doKw _ c₃ ⟨rfl, hdo⟩
  refine (hinner c₃).bind ?_
  intro body us c₄ hbody
  refine (spells_expect (by decide)).bind ?_
  rintro endKw _ c₅ ⟨rfl, hend⟩
  have hlast : [kw] ++ (ts ++ ([doKw] ++ (us ++ ([endKw] ++ [])))) = kw :: (ts ++ doKw :: us) ++ [endKw] := by simp
  refine .pure ⟨?_, ?_, ?_, ⟨kw, _, rfl, by rw [hkw]; decide⟩, nofun, nofun⟩
  · simp only [Stmt.wellFormed, he, hbody.wellFormed, Bool.and_self]
  · simp only [List.singleton_append, List.append_nil]
    rw [dropEmptyElse_cons (by rw [hkw]; decide), dropEmptyElse_append (sealed_expr hts), dropEmptyElse_expr hts,
      dropEmptyElse_cons (by rw [hdo]; decide), dropEmptyElse_append hbody.isSealed,
      dropEmptyElse_cons (by rw [hend]; decide)]
    exact .cons (Token.skeleton_mark hkw rfl) (hts.append (.cons (Token.skeleton_mark hdo rfl)
      (hbody.skeleton.append (.cons (Token.skeleton_mark hend rfl) .nil))))
  · rw [hlast]
    exact sealed_concat _ (by rw [hend]; decide)

theorem spells_function (bound : Nat) (c : Cursor) : Spells c (function inner bound) (ReadStmt c) := by
  refine (spells_expect (by decide)).bind ?_
  rintro kw _ c₁ ⟨rfl, hkw⟩
  refine spells_takeName.bind ?_
  rintro name _ c₂ ⟨t, rfl, htag, htext⟩
  refine (spells_expect (by decide)).bind ?_
  rintro lparen _ c₃ ⟨rfl, hlparen⟩
  refine (spells_params bound c₃).bind ?_
  intro ps ts c₄ hts
  refine (spells_expect (by decide)).bind ?_
  rintro rparen _ c₅ ⟨rfl, hrparen⟩
  refine (hinner c₅).bind ?_
  intro body us c₆ hbody
  refine (spells_expect (by decide)).bind ?_
  rintro endKw _ c₇ ⟨rfl, hend⟩
  have hplain := hts.forall_tag (P := (· ≠ .elseKw)) (tag_ne_elseKw_params ps)
  have hlast : [kw] ++ ([t] ++ ([lparen] ++ (ts ++ ([rparen] ++ (us ++ ([endKw] ++ []))))))
      = kw :: t :: lparen :: (ts ++ rparen :: us) ++ [endKw] := by simp
  refine .pure ⟨?_, ?_, ?_, ⟨kw, _, rfl, by rw [hkw]; decide⟩, nofun, nofun⟩
  · simp [Stmt.wellFormed, Stmt.isBareReturn, blockWellFormed_concat hbody.wellFormed]
  · simp only [List.singleton_append, List.append_nil]
    rw [dropEmptyElse_cons (by rw [hkw]; decide), dropEmptyElse_cons (by rw [htag]; decide),
      dropEmptyElse_cons (by rw [hlparen]; decide), dropEmptyElse_append (sealed_of_forall hplain),
      dropEmptyElse_eq_self hplain, dropEmptyElse_cons (by rw [hrparen]; decide), dropEmptyElse_append hbody.isSealed,
      dropEmptyElse_cons (by rw [hend]; decide), Stmt.tokens, Stmt.bodyTokens_concat]
    exact .cons (Token.skeleton_mark hkw rfl) (.cons (Token.skeleton_ofText htag htext)
      (.cons (Token.skeleton_mark hlparen rfl) (hts.append (.cons (Token.skeleton_mark hrparen rfl)
        (hbody.skeleton.append (.cons (Token.skeleton_mark hend rfl) .nil))))))
  · rw [hlast]
    exact sealed_concat _ (by rw [hend]; decide)

theorem spells_cond (bound : Nat) (c : Cursor) : Spells c (cond inner bound) (ReadStmt c) := by
  refine (spells_expect (by decide)).bind ?_
  rintro kw _ c₁ ⟨rfl, hkw⟩
  refine (spells_expr bound c₁).bind ?_
  rintro e ts c₂ ⟨he, hts⟩
  refine (spells_expect (by decide)).bind ?_
  rintro thenKw _ c₃ ⟨rfl, hthen⟩
  refine (hinner c₃).bind ?_
  intro thenBlock us c₄ hthenBlock
  -- Both ways to go on read the `end` and put the condition together.
  have hfinish : ∀ (elseBlock : List Stmt) (vs : List Token) (c₅ : Cursor), Stmt.blockWellFormed elseBlock = true →
      (∀ endKw : Token, endKw.tag = .endKw → SameSkeleton (dropEmptyElse (vs ++ [endKw]))
        ((if elseBlock.isEmpty then [] else mark .elseKw :: Stmt.blockTokens elseBlock) ++ [mark .endKw])) →
      Spells c₅ (do let _ ← expect .endKw; pure (Stmt.cond e thenBlock elseBlock)) fun s ws c' =>
        ReadStmt c s ([kw] ++ (ts ++ ([thenKw] ++ (us ++ (vs ++ ws))))) c' := by
    intro elseBlock vs c₅ helse hvs
    refine (spells_expect (by decide)).bind ?_
    rintro endKw _ c₆ ⟨rfl, hend⟩
    have hlast : [kw] ++ (ts ++ ([thenKw] ++ (us ++ (vs ++ ([endKw] ++ [])))))
        = kw :: (ts ++ thenKw :: (us ++ vs)) ++ [endKw] := by simp
    refine .pure ⟨?_, ?_, ?_, ⟨kw, _, rfl, by rw [hkw]; decide⟩, nofun, nofun⟩
    · simp only [Stmt.wellFormed, he, hthenBlock.wellFormed, helse, Bool.and_self]
    · simp only [List.singleton_append, List.append_nil]
      rw [dropEmptyElse_cons (by rw [hkw]; decide), dropEmptyElse_append (sealed_expr hts), dropEmptyElse_expr hts,
        dropEmptyElse_cons (by rw [hthen]; decide), dropEmptyElse_append hthenBlock.isSealed]
      exact .cons (Token.skeleton_mark hkw rfl) (hts.append (.cons (Token.skeleton_mark hthen rfl)
        (hthenBlock.skeleton.append (hvs endKw hend))))
    · rw [hlast]
      exact sealed_concat _ (by rw [hend]; decide)
  apply Spells.get
  split
  · refine hfinish [] [] c₄ rfl ?_
    intro endKw hend
    rw [List.nil_append, dropEmptyElse_cons (by rw [hend]; decide)]
    exact .cons (Token.skeleton_mark hend rfl) .nil
  · refine (spells_expect (by decide)).bind ?_
    rintro elseKw _ c₅ ⟨rfl, helseKw⟩
    refine (hinner c₅).bind ?_
    intro elseBlock vs c₆ helse
    refine (hfinish elseBlock (elseKw :: vs) c₆ helse.wellFormed ?_).mono ?_
    · intro endKw hend
      have hendKw : endKw.tag ≠ .elseKw := by rw [hend]; decide
      cases elseBlock with
      | nil =>
          rw [helse.empty rfl, List.singleton_append, dropEmptyElse, if_pos ⟨helseKw, by simp [hend]⟩,
            dropEmptyElse_cons hendKw]
          exact .cons (Token.skeleton_mark hend rfl) .nil
      | cons s rest =>
          obtain ⟨t, ws, rfl, ht⟩ := helse.starts (List.cons_ne_nil s rest)
          rw [List.cons_append, dropEmptyElse, if_neg (by simp [ht]), dropEmptyElse_append helse.isSealed,
            dropEmptyElse_cons hendKw]
          exact .cons (Token.skeleton_mark helseKw rfl)
            (helse.skeleton.append (.cons (Token.skeleton_mark hend rfl) .nil))
    · intro s ws c' h
      simpa only [List.cons_append, List.nil_append] using h

theorem spells_statement (bound : Nat) (c : Cursor) : Spells c (statement inner bound) (ReadStmt c) := by
  apply Spells.get
  split
  · exact spells_cond hinner bound c
  · exact spells_loop hinner bound c
  · exact spells_ret bound c
  · rename_i htag
    refine (spells_take (by rw [htag]; decide)).bind ?_
    rintro _ _ c₁ ⟨rfl, rfl⟩
    have hne : c.current.tag ≠ .elseKw := by
      rw [← Cursor.tag, htag]
      decide
    refine .pure ⟨rfl, ?_, sealed_concat [] hne, ⟨c.current, [], rfl, ?_⟩, by simp [Stmt.isBareReturn],
      by simp [Stmt.isCall]⟩
    · rw [List.append_nil, dropEmptyElse_cons hne]
      exact .cons (Token.skeleton_mark htag rfl) .nil
    · rw [← Cursor.tag, htag]
      decide
  · exact spells_function hinner bound c
  · rename_i htag
    split
    · rename_i hnext
      exact spells_callStmt bound c htag hnext
    · exact spells_assign bound c
  · exact spells_unexpected

end Blocks

theorem readBlock_nil (c : Cursor) : ReadBlock c [] [] :=
  ⟨rfl, .nil, nofun, fun _ => rfl, fun h => absurd rfl h, nofun⟩

/-- A statement and those after it. A call after a return without value would have been its value. -/
theorem ReadStmt.cons {c c₁ : Cursor} {s : Stmt} {rest : List Stmt} {ts us : List Token} (hs : ReadStmt c s ts c₁)
    (hrest : ReadBlock c₁ rest us) : ReadBlock c (s :: rest) (ts ++ us) := by
  refine ⟨?_, ?_, ?_, nofun, ?_, hs.call⟩
  · have hcall : (!(s.isBareReturn && rest.head?.any Stmt.isCall)) = true := by
      rw [Bool.not_eq_true', Bool.and_eq_false_imp]
      intro hbare
      rw [← Bool.not_eq_true]
      exact fun hcall => hs.value hbare (hrest.call hcall)
    simp only [Stmt.blockWellFormed, hs.wellFormed, hcall, hrest.wellFormed, Bool.and_self]
  · rw [dropEmptyElse_append hs.isSealed, Stmt.blockTokens]
    exact hs.skeleton.append hrest.skeleton
  · cases us with
    | nil =>
        rw [List.append_nil]
        exact hs.isSealed
    | cons u us => exact sealed_append hrest.isSealed (List.cons_ne_nil u us)
  · intro _
    obtain ⟨t, vs, rfl, ht⟩ := hs.starts
    exact ⟨t, vs ++ us, rfl, ht⟩

theorem spells_block (bound : Nat) (c : Cursor) : Spells c (block bound) fun stmts ts _ => ReadBlock c stmts ts := by
  induction bound generalizing c with
  | zero => exact .pure (readBlock_nil c)
  | succ bound ih =>
      apply Spells.get
      split
      · refine (spells_statement ih bound c).bind ?_
        intro s ts c₁ hs
        refine (ih c₁).bind ?_
        intro rest us c₂ hrest
        refine .pure ?_
        rw [List.append_nil]
        exact hs.cons hrest
      · exact .pure (readBlock_nil c)

end Parser

theorem Cursor.toList_prepend (c : Cursor) (ts : List Token) : (c.prepend ts).toList = ts ++ c.toList := by
  cases ts with
  | nil => rfl
  | cons t ts => rw [prepend_cons_eq, toList, toList, List.cons_append]

theorem toList_eq_of_eof {c : Cursor} (hc : Terminated c.toList) (htag : c.tag = .eof) : c.toList = [c.current] := by
  obtain ⟨current, upcoming⟩ := c
  cases upcoming with
  | nil => rfl
  | cons next rest => exact absurd htag hc.1

/-- A program that was read is well formed, and its tokens are those it was read from. -/
theorem unparse_of_parse {tokens : List Token} (heof : ∀ t ∈ tokens, t.tag ≠ .eof) {program : List Stmt}
    (h : parse tokens = .ok program) :
    Stmt.blockWellFormed program = true ∧ SameSkeleton (unparse program) (dropEmptyElse tokens) := by
  obtain ⟨mark, hmark, hcursor⟩ := Cursor.ofTokens_eq tokens
  have htokens : (Cursor.ofTokens tokens).toList = tokens ++ [mark] := by
    rw [hcursor, Cursor.toList_prepend]
    rfl
  have hends : Terminated (Cursor.ofTokens tokens).toList := by
    rw [htokens]
    exact terminated_concat heof hmark
  rw [parse, Parser.program, get_bind] at h
  cases hblock : Parser.block ((Cursor.ofTokens tokens).upcoming.length + 1) (Cursor.ofTokens tokens) with
  | error e c =>
      simp only [bind, EStateM.bind, hblock] at h
      cases h
  | ok stmts c =>
      obtain ⟨ts, hts, hc, hread⟩ := Parser.spells_block _ _ hends stmts c hblock
      rw [bind_ok hblock] at h
      by_cases heof' : c.tag = .eof
      · have hend : Parser.expect .eof c = .ok c.current c.advance := by
          rw [Parser.expect, get_bind, if_pos heof']
          rfl
        rw [bind_ok hend] at h
        cases h
        rw [htokens, toList_eq_of_eof hc heof'] at hts
        obtain ⟨rfl, -⟩ := List.append_inj' hts rfl
        exact ⟨hread.wellFormed, hread.skeleton.symm⟩
      · have hend : Parser.expect .eof c = .error ⟨c.current, some .eof⟩ c := by
          rw [Parser.expect, get_bind, if_neg heof']
          rfl
        simp only [bind, EStateM.bind, hend] at h
        cases h

/-- The parser is the inverse of printing. Well-formed programs are read back from their tokens, and whatever was read
is well formed and has the tokens that it was read from, without the `else` of branches that hold nothing. -/
theorem parse_inverse_unparse :
    (∀ program, Stmt.blockWellFormed program = true → parse (unparse program) = .ok program)
      ∧ ∀ tokens program, (∀ t ∈ tokens, t.tag ≠ .eof) → parse tokens = .ok program →
        Stmt.blockWellFormed program = true
          ∧ (unparse program).map Token.skeleton = (dropEmptyElse tokens).map Token.skeleton :=
  ⟨fun _ h => parse_unparse h, fun _ _ heof h => unparse_of_parse heof h⟩

/-- A condition with an `else` that is followed by its `end`, and a return that takes no value. -/
theorem parse_inverse_unparse_emptyElse :
    ∃ program, parse [mark .ifKw, ofText .name "a", mark .thenKw, mark .elseKw, mark .endKw, mark .returnKw,
          ofText .name "b", mark .assign, ofText .number "1"] = .ok program
      ∧ Stmt.blockWellFormed program = true ∧ parse (unparse program) = .ok program
      ∧ (unparse program).map Token.skeleton = [mark .ifKw, ofText .name "a", mark .thenKw, mark .endKw, mark .returnKw,
          ofText .name "b", mark .assign, ofText .number "1"].map Token.skeleton := by
  refine ⟨_, rfl, ?_⟩
  have hread := parse_inverse_unparse.2 _ _ (by decide) (Eq.refl (parse [mark .ifKw, ofText .name "a", mark .thenKw,
    mark .elseKw, mark .endKw, mark .returnKw, ofText .name "b", mark .assign, ofText .number "1"]))
  exact ⟨hread.1, parse_inverse_unparse.1 _ hread.1, hread.2⟩

end Scriptlet
