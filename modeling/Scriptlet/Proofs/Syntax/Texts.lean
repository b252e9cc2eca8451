import Mathlib.Tactic
import Scriptlet.Proofs.Syntax.Inverse

/-!
# Names and literals of a program

What holds of the texts of all name and literal tokens holds of all names and literals in the tree that is read from
them.
-/

namespace Scriptlet

open Token (ofText mark)

/-- What names and literals are to satisfy. -/
structure Texts where
  name : String → Prop
  literal : LiteralKind → String → Prop

/-- The text of a token is as required, if it is a name or a literal. -/
def Token.Fits (p : Texts) (t : Token) : Prop :=
  (t.tag = .name → p.name t.text) ∧ ∀ kind : LiteralKind, t.tag = kind.tag → p.literal kind t.text

section Tokens

variable {p : Texts}

theorem Token.fits_mark {tag : Tag} (h : tag.hasText = false) : (mark tag).Fits p := by
  constructor
  · rintro (rfl : tag = .name)
    cases h
  · rintro kind (rfl : tag = kind.tag)
    cases kind <;> cases h

/-- Fitting depends on the skeleton only. -/
theorem Token.fits_of_skeleton {t u : Token} (h : t.skeleton = u.skeleton) (ht : t.Fits p) : u.Fits p := by
  have htag : t.tag = u.tag := congrArg Prod.fst h
  have htext : t.tag.hasText = true → t.text = u.text := by
    intro hhas
    obtain ⟨tag, position, text⟩ := t
    obtain ⟨tag', position', text'⟩ := u
    cases htag
    cases tag <;> first | exact Option.some.inj (congrArg Prod.snd h) | cases hhas
  refine ⟨fun hname => ?_, fun kind hkind => ?_⟩
  · have htext' := htext (by rw [htag, hname]; rfl)
    exact htext' ▸ ht.1 (htag.trans hname)
  · have htext' := htext (by rw [htag, hkind]; cases kind <;> rfl)
    exact htext' ▸ ht.2 kind (htag.trans hkind)

theorem SameSkeleton.fits {ts us : List Token} (h : SameSkeleton us ts) (hts : ∀ t ∈ ts, t.Fits p) :
    ∀ u ∈ us, u.Fits p := by
  intro u hu
  have hmem : u.skeleton ∈ ts.map Token.skeleton := h ▸ List.mem_map_of_mem hu
  obtain ⟨t, ht, hskeleton⟩ := List.mem_map.1 hmem
  exact Token.fits_of_skeleton hskeleton (hts t ht)

theorem mem_of_mem_dropEmptyElse {t : Token} {ts : List Token} (h : t ∈ dropEmptyElse ts) : t ∈ ts := by
  induction ts with
  | nil => cases h
  | cons u ts ih =>
      rw [dropEmptyElse] at h
      split at h
      · exact List.mem_cons_of_mem u (ih h)
      · rcases List.mem_cons.1 h with rfl | h
        · exact List.mem_cons_self
        · exact List.mem_cons_of_mem u (ih h)

end Tokens

/-! ## Expressions -/

namespace Expr

/-- All names and literals of an expression are as required. -/
def Fits (p : Texts) (e : Expr) : Prop :=
  ∀ t ∈ e.tokens, t.Fits p

/-- All names and literals of the operands in a chain, but for the first, are as required. -/
def TailFits (p : Texts) (es : List Expr) (ops : List BinaryOp) : Prop :=
  ∀ t ∈ tailTokens es ops, t.Fits p

variable {p : Texts}

theorem Fits.name {id : String} (h : Fits p (.name id)) : p.name id :=
  (h (ofText .name id) List.mem_cons_self).1 rfl

theorem Fits.literal {kind : LiteralKind} {text : String} (h : Fits p (.literal kind text)) : p.literal kind text :=
  (h (ofText kind.tag text) List.mem_cons_self).2 kind rfl

theorem Fits.paren {inner : Expr} (h : Fits p (.paren inner)) : Fits p inner := by
  intro t ht
  exact h t (List.mem_cons_of_mem _ (List.mem_append_left _ ht))

theorem Fits.unary {ops : List UnaryOp} {operand : Expr} (h : Fits p (.unary ops operand)) : Fits p operand := by
  intro t ht
  exact h t (List.mem_append_right _ ht)

theorem Fits.chain {layer : Layer} {e : Expr} {es : List Expr} {ops : List BinaryOp}
    (h : Fits p (.chain layer (e :: es) ops)) : Fits p e ∧ TailFits p es ops :=
  ⟨fun t ht => h t (List.mem_append_left _ ht), fun t ht => h t (List.mem_append_right _ ht)⟩

theorem TailFits.cons {e : Expr} {es : List Expr} {op : BinaryOp} {ops : List BinaryOp}
    (h : TailFits p (e :: es) (op :: ops)) : Fits p e ∧ TailFits p es ops :=
  ⟨fun t ht => h t (List.mem_cons_of_mem _ (List.mem_append_left _ ht)),
    fun t ht => h t (List.mem_cons_of_mem _ (List.mem_append_right _ ht))⟩

theorem fits_of_moreArgTokens {args : List Expr} (h : ∀ t ∈ moreArgTokens args, t.Fits p) : ∀ e ∈ args, Fits p e := by
  induction args with
  | nil => simp
  | cons e es ih =>
      refine List.forall_mem_cons.2 ⟨fun t ht => ?_, ih fun t ht => ?_⟩
      · exact h t (List.mem_cons_of_mem _ (List.mem_append_left _ ht))
      · exact h t (List.mem_cons_of_mem _ (List.mem_append_right _ ht))

theorem fits_of_argTokens {args : List Expr} (h : ∀ t ∈ argTokens args, t.Fits p) : ∀ e ∈ args, Fits p e := by
  cases args with
  | nil => simp
  | cons e es =>
      refine List.forall_mem_cons.2 ⟨fun t ht => ?_, fits_of_moreArgTokens fun t ht => ?_⟩
      · exact h t (List.mem_append_left _ ht)
      · exact h t (List.mem_append_right _ ht)

theorem fits_of_callTokens {callee : String} {args : List Expr}
    (h : ∀ t ∈ ofText .name callee :: mark .lparen :: (argTokens args ++ [mark .rparen]), t.Fits p) :
    p.name callee ∧ ∀ e ∈ args, Fits p e := by
  refine ⟨(h (ofText .name callee) List.mem_cons_self).1 rfl, fits_of_argTokens fun t ht => ?_⟩
  exact h t (List.mem_cons_of_mem _ (List.mem_cons_of_mem _ (List.mem_append_left _ ht)))

theorem Fits.call {callee : String} {args : List Expr} (h : Fits p (.call callee args)) :
    p.name callee ∧ ∀ e ∈ args, Fits p e :=
  fits_of_callTokens h

end Expr

/-! ## Statements -/

namespace Stmt

/-- All names and literals of a statement are as required. -/
def Fits (p : Texts) (s : Stmt) : Prop :=
  ∀ t ∈ s.tokens, t.Fits p

/-- All names and literals of statements are as required. -/
def BlockFits (p : Texts) (stmts : List Stmt) : Prop :=
  ∀ t ∈ blockTokens stmts, t.Fits p

variable {p : Texts}

theorem BlockFits.cons {s : Stmt} {rest : List Stmt} (h : BlockFits p (s :: rest)) : Fits p s ∧ BlockFits p rest :=
  ⟨fun t ht => h t (List.mem_append_left _ ht), fun t ht => h t (List.mem_append_right _ ht)⟩

theorem Fits.cond {test : Expr} {thenBlock elseBlock : List Stmt} (h : Fits p (.cond test thenBlock elseBlock)) :
    test.Fits p ∧ BlockFits p thenBlock ∧ BlockFits p elseBlock := by
  simp only [Fits, tokens, List.mem_cons, List.mem_append] at h
  refine ⟨fun t ht => h t (by simp [ht]), fun t ht => h t (by simp [ht]), fun t ht => ?_⟩
  cases elseBlock with
  | nil => cases ht
  | cons s rest => exact h t (by simp [ht])

theorem Fits.loop {test : Expr} {body : List Stmt} (h : Fits p (.loop test body)) :
    test.Fits p ∧ BlockFits p body := by
  simp only [Fits, tokens, List.mem_cons, List.mem_append] at h
  exact ⟨fun t ht => h t (by simp [ht]), fun t ht => h t (by simp [ht])⟩

theorem Fits.ret {value : Expr} (h : Fits p (.ret (some value))) : value.Fits p :=
  fun t ht => h t (List.mem_cons_of_mem _ ht)

theorem Fits.assign {name : String} {value : Expr} (h : Fits p (.assign name value)) : p.name name ∧ value.Fits p :=
  ⟨(h (ofText .name name) List.mem_cons_self).1 rfl,
    fun t ht => h t (List.mem_cons_of_mem _ (List.mem_cons_of_mem _ ht))⟩

theorem Fits.call {callee : String} {args : List Expr} (h : Fits p (.call callee args)) :
    p.name callee ∧ ∀ e ∈ args, e.Fits p :=
  Expr.fits_of_callTokens h

theorem name_of_paramTokens {ps : List String} (h : ∀ t ∈ paramTokens ps, t.Fits p) : ∀ q ∈ ps, p.name q := by
  have hmore : ∀ qs, (∀ t ∈ moreParamTokens qs, t.Fits p) → ∀ q ∈ qs, p.name q := by
    intro qs hqs
    induction qs with
    | nil => simp
    | cons q qs ih =>
        simp only [moreParamTokens, List.forall_mem_cons] at hqs
        exact List.forall_mem_cons.2 ⟨hqs.2.1.1 rfl, ih hqs.2.2⟩
  cases ps with
  | nil => simp
  | cons q ps =>
      simp only [paramTokens, List.forall_mem_cons] at h
      exact List.forall_mem_cons.2 ⟨h.1.1 rfl, hmore ps h.2⟩

theorem blockTokens_append (stmts rest : List Stmt) : blockTokens (stmts ++ rest) = blockTokens stmts ++ blockTokens rest := by
  induction stmts with
  | nil => rfl
  | cons s stmts ih => rw [List.cons_append, blockTokens, blockTokens, ih, List.append_assoc]

/-- The return that ends a body has no names, so it does not matter that its token is left out. -/
theorem Fits.function {name : String} {params : List String} {body : List Stmt}
    (hwf : (Stmt.function name params body).wellFormed = true) (h : Fits p (.function name params body)) :
    p.name name ∧ (∀ q ∈ params, p.name q) ∧ BlockFits p body := by
  simp only [wellFormed, Bool.and_eq_true] at hwf
  obtain ⟨init, rfl⟩ := Parser.exists_concat_of_bareReturn hwf.1
  simp only [Fits, tokens, bodyTokens_concat, List.mem_cons, List.mem_append] at h
  refine ⟨(h (ofText .name name) (by simp)).1 rfl, name_of_paramTokens fun t ht => h t (by simp [ht]), ?_⟩
  intro t ht
  rw [blockTokens_append, List.mem_append] at ht
  rcases ht with ht | ht
  · exact h t (by simp [ht])
  · rw [List.mem_singleton.1 ht]
    exact Token.fits_mark rfl

end Stmt

/-- What holds of all tokens of a program holds of the program. -/
theorem blockFits_of_parse {p : Texts} {tokens : List Token} (heof : ∀ t ∈ tokens, t.tag ≠ .eof) {program : List Stmt}
    (h : parse tokens = .ok program) (hfits : ∀ t ∈ tokens, t.Fits p) : Stmt.BlockFits p program :=
  (unparse_of_parse heof h).2.fits fun t ht => hfits t (mem_of_mem_dropEmptyElse ht)

end Scriptlet
