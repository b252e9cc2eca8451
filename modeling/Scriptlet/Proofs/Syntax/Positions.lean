import Mathlib.Tactic
import Scriptlet.Proofs.Token.Lexemes
import Scriptlet.Syntax.Parser

/-!
# Positions mean nothing

Parsers look at the tags and the texts of tokens, never at their places. So tokens that differ in their places only are
read as the same program.
-/

namespace Scriptlet

/-! ## Cursors -/

/-- Cursors at tokens that differ in their places only. -/
structure Cursor.Alike (c d : Cursor) : Prop where
  current : c.current.lexeme = d.current.lexeme
  upcoming : c.upcoming.map Token.lexeme = d.upcoming.map Token.lexeme

namespace Cursor.Alike

variable {c d : Cursor}

theorem tag (h : c.Alike d) : c.tag = d.tag :=
  congrArg Prod.fst h.current

theorem length (h : c.Alike d) : c.upcoming.length = d.upcoming.length := by
  simpa using congrArg List.length h.upcoming

theorem nextTag (h : c.Alike d) : c.nextTag = d.nextTag := by
  obtain ⟨current, upcoming⟩ := c
  obtain ⟨current', upcoming'⟩ := d
  cases upcoming with
  | nil =>
      cases List.map_eq_nil_iff.1 h.upcoming.symm
      exact h.tag
  | cons t ts =>
      obtain ⟨u, us, rfl, hu, -⟩ := List.map_eq_cons_iff.1 h.upcoming.symm
      exact congrArg Prod.fst hu.symm

theorem advance (h : c.Alike d) : c.advance.Alike d.advance := by
  have htag := h.tag
  unfold Cursor.advance
  rw [htag]
  have hupcoming := h.upcoming
  cases hc : c.upcoming with
  | nil =>
      rw [hc, List.map_nil, eq_comm, List.map_eq_nil_iff] at hupcoming
      rw [hupcoming]
      split <;> first | exact h | contradiction
  | cons t ts =>
      rw [hc, List.map_cons, eq_comm, List.map_eq_cons_iff] at hupcoming
      obtain ⟨u, us, hd, hu, hus⟩ := hupcoming
      rw [hd]
      cases d.tag with
      | eof => exact h
      | _ => exact ⟨hu.symm, hus.symm⟩

end Cursor.Alike

namespace Parser

/-- Results of parsers at cursors alike: both are values, related as told, or both are errors at tokens alike. -/
inductive Same {α : Type} (R : α → α → Prop) :
    EStateM.Result ParseError Cursor α → EStateM.Result ParseError Cursor α → Prop
  | ok {a b : α} {c d : Cursor} : R a b → c.Alike d → Same R (.ok a c) (.ok b d)
  | error {e e' : ParseError} {c d : Cursor} : e.token.lexeme = e'.token.lexeme → e.expected = e'.expected → c.Alike d →
      Same R (.error e c) (.error e' d)

/-- Parsers that do the same at cursors alike. -/
def Alike {α : Type} (R : α → α → Prop) (p q : Parser α) : Prop :=
  ∀ c d, c.Alike d → Same R (p c) (q d)

/-- A parser that does not look at places. -/
def Placeless {α : Type} (p : Parser α) : Prop :=
  Alike Eq p p

section Rules

variable {α β : Type} {R : α → α → Prop} {S : β → β → Prop} {p q : Parser α}

theorem Alike.pure {a b : α} (h : R a b) : Alike R (pure a) (pure b) :=
  fun _ _ hcd => .ok h hcd

theorem Alike.bind {f g : α → Parser β} (hp : Alike R p q) (hf : ∀ a b, R a b → Alike S (f a) (g b)) :
    Alike S (p >>= f) (q >>= g) := by
  intro c d hcd
  have hsame := hp c d hcd
  simp only [Bind.bind, EStateM.bind]
  generalize p c = r, q d = r' at hsame ⊢
  cases hsame with
  | ok hab hnext => exact hf _ _ hab _ _ hnext
  | error htoken hexpected hnext => exact .error htoken hexpected hnext

theorem placeless_pure (a : α) : Placeless (pure a : Parser α) :=
  .pure rfl

theorem Placeless.bind {f : α → Parser β} (hp : Placeless p) (hf : ∀ a, Placeless (f a)) : Placeless (p >>= f) := by
  refine Alike.bind hp ?_
  rintro a _ rfl
  exact hf a

/-- What is done at a cursor may depend on what all cursors alike have in common. -/
theorem Placeless.get {f : Cursor → Parser β} (hsame : ∀ c d, c.Alike d → f c = f d) (hf : ∀ c, Placeless (f c)) :
    Placeless (get >>= f) := by
  intro c d hcd
  have hnext := hf c c d hcd
  -- the second parser is the one at `d`, which is the same
  nth_rewrite 2 [hsame c d hcd] at hnext
  exact hnext

theorem Alike.discard {f : Parser β} (hp : Alike R p p) (hf : Placeless f) : Placeless (p >>= fun _ => f) :=
  hp.bind fun _ _ _ => hf

end Rules

section Tokens

theorem placeless_unexpected {α : Type} : Placeless (unexpected : Parser α) :=
  fun _ _ hcd => .error hcd.current rfl hcd

theorem alike_take : Alike (fun t u => t.lexeme = u.lexeme) take take :=
  fun _ _ hcd => .ok hcd.current hcd.advance

theorem alike_expect (tag : Tag) : Alike (fun t u => t.lexeme = u.lexeme) (expect tag) (expect tag) := by
  intro c d hcd
  show Same _ ((if c.tag = tag then take else throw ⟨c.current, some tag⟩) c)
    ((if d.tag = tag then take else throw ⟨d.current, some tag⟩) d)
  rw [hcd.tag]
  split
  · exact alike_take c d hcd
  · exact .error hcd.current rfl hcd

theorem placeless_text {α : Type} (tree : String → α) : Placeless (do return tree (← take).text) :=
  alike_take.bind fun _ _ h => .pure (congrArg tree (congrArg Prod.snd h))

theorem placeless_takeName : Placeless takeName := by
  refine .get (fun c d h => by rw [h.tag]) fun c => ?_
  split
  · exact placeless_text id
  · exact placeless_unexpected

end Tokens

/-! ## Expressions -/

section Expressions

variable {operand inner : Parser Expr}

theorem placeless_chainTail (layer : Layer) (h : Placeless operand) (bound : Nat) :
    Placeless (chainTail layer operand bound) := by
  induction bound with
  | zero => exact placeless_pure _
  | succ bound ih =>
      refine .get (fun c d hcd => by rw [hcd.tag]) fun c => ?_
      split
      · exact placeless_pure _
      · exact alike_take.discard (h.bind fun _ => ih.bind fun _ => placeless_pure _)

theorem placeless_chain (layer : Layer) (bound : Nat) (h : Placeless operand) : Placeless (chain layer bound operand) :=
  h.bind fun _ => (placeless_chainTail layer h bound).bind fun _ => placeless_pure _

theorem placeless_unaryOps (bound : Nat) : Placeless (unaryOps bound) := by
  induction bound with
  | zero => exact placeless_pure _
  | succ bound ih =>
      refine .get (fun c d hcd => by rw [hcd.tag]) fun c => ?_
      split
      · exact placeless_pure _
      · exact alike_take.discard (ih.bind fun _ => placeless_pure _)

theorem placeless_moreArguments (h : Placeless inner) (bound : Nat) : Placeless (moreArguments inner bound) := by
  induction bound with
  | zero => exact placeless_pure _
  | succ bound ih =>
      refine .get (fun c d hcd => by rw [hcd.tag]) fun c => ?_
      dsimp only
      split
      · exact placeless_pure _
      · exact (alike_expect .comma).discard (h.bind fun _ => ih.bind fun _ => placeless_pure _)

theorem placeless_callee (h : Placeless inner) (bound : Nat) : Placeless (callee inner bound) := by
  refine placeless_takeName.bind fun name => (alike_expect .lparen).discard ?_
  refine .get (fun c d hcd => by rw [hcd.tag]) fun c => ?_
  have hclose : ∀ args : List Expr, Placeless (expect .rparen >>= fun _ => pure (name, args)) := fun args =>
    (alike_expect .rparen).discard (placeless_pure _)
  split
  · exact hclose []
  · exact h.bind fun e => (placeless_moreArguments h bound).bind fun more => hclose (e :: more)

theorem placeless_primary (h : Placeless inner) (bound : Nat) : Placeless (primary inner bound) := by
  refine .get (fun c d hcd => by rw [hcd.tag, hcd.nextTag]) fun c => ?_
  split
  · split
    · exact (placeless_callee h bound).bind fun _ => placeless_pure _
    · exact placeless_text Expr.name
  · exact alike_take.discard (h.bind fun _ => (alike_expect .rparen).discard (placeless_pure _))
  · exact placeless_text _
  · exact placeless_text _
  · exact placeless_text _
  · exact placeless_text _
  · exact placeless_unexpected

theorem placeless_unary (h : Placeless inner) (bound : Nat) : Placeless (unary inner bound) :=
  (placeless_unaryOps bound).bind fun _ => (placeless_primary h bound).bind fun _ => placeless_pure _

theorem placeless_expr (bound : Nat) : Placeless (expr bound) := by
  induction bound with
  | zero => exact placeless_unexpected
  | succ bound ih =>
      exact placeless_chain _ bound <| placeless_chain _ bound <| placeless_chain _ bound <|
        placeless_chain _ bound <| placeless_chain _ bound <| placeless_chain _ bound <| placeless_unary ih bound

end Expressions

/-! ## Statements -/

section Statements

variable {body : Parser (List Stmt)}

theorem placeless_moreParams (bound : Nat) : Placeless (moreParams bound) := by
  induction bound with
  | zero => exact placeless_pure _
  | succ bound ih =>
      refine .get (fun c d hcd => by rw [hcd.tag]) fun c => ?_
      split
      · exact placeless_pure _
      · exact (alike_expect .comma).discard (placeless_takeName.bind fun _ => ih.bind fun _ => placeless_pure _)

theorem placeless_params (bound : Nat) : Placeless (params bound) := by
  refine .get (fun c d hcd => by rw [hcd.tag]) fun c => ?_
  split
  · exact placeless_pure _
  · exact placeless_takeName.bind fun _ => (placeless_moreParams bound).bind fun _ => placeless_pure _

theorem placeless_cond (h : Placeless body) (bound : Nat) : Placeless (cond body bound) := by
  refine (alike_expect .ifKw).discard ((placeless_expr bound).bind fun test => ?_)
  refine (alike_expect .thenKw).discard (h.bind fun thenBlock => ?_)
  refine .get (fun c d hcd => by rw [hcd.tag]) fun c => ?_
  have hclose : ∀ elseBlock : List Stmt,
      Placeless (expect .endKw >>= fun _ => pure (Stmt.cond test thenBlock elseBlock)) := fun elseBlock =>
    (alike_expect .endKw).discard (placeless_pure _)
  split
  · exact hclose []
  · exact (alike_expect .elseKw).discard (h.bind hclose)

theorem placeless_loop (h : Placeless body) (bound : Nat) : Placeless (loop body bound) := by
  refine (alike_expect .whileKw).discard ((placeless_expr bound).bind fun test => ?_)
  exact (alike_expect .doKw).discard (h.bind fun _ => (alike_expect .endKw).discard (placeless_pure _))

theorem placeless_ret (bound : Nat) : Placeless (ret bound) := by
  refine (alike_expect .returnKw).discard (.get (fun c d hcd => by rw [hcd.tag, hcd.nextTag]) fun c => ?_)
  split
  · exact (placeless_expr bound).bind fun _ => placeless_pure _
  · exact placeless_pure _

theorem placeless_assign (bound : Nat) : Placeless (assign bound) :=
  placeless_takeName.bind fun _ => (alike_expect .assign).discard
    ((placeless_expr bound).bind fun _ => placeless_pure _)

theorem placeless_function (h : Placeless body) (bound : Nat) : Placeless (function body bound) := by
  refine (alike_expect .functionKw).discard (placeless_takeName.bind fun name => ?_)
  refine (alike_expect .lparen).discard ((placeless_params bound).bind fun ps => ?_)
  exact (alike_expect .rparen).discard (h.bind fun _ => (alike_expect .endKw).discard (placeless_pure _))

theorem placeless_statement (h : Placeless body) (bound : Nat) : Placeless (statement body bound) := by
  refine .get (fun c d hcd => by rw [hcd.tag, hcd.nextTag]) fun c => ?_
  split
  · exact placeless_cond h bound
  · exact placeless_loop h bound
  · exact placeless_ret bound
  · exact alike_take.discard (placeless_pure _)
  · exact placeless_function h bound
  · split
    · exact (placeless_callee (placeless_expr bound) bound).bind fun _ => placeless_pure _
    · exact placeless_assign bound
  · exact placeless_unexpected

theorem placeless_block (bound : Nat) : Placeless (block bound) := by
  induction bound with
  | zero => exact placeless_pure _
  | succ bound ih =>
      refine .get (fun c d hcd => by rw [hcd.tag]) fun c => ?_
      split
      · exact (placeless_statement ih bound).bind fun _ => ih.bind fun _ => placeless_pure _
      · exact placeless_pure _

theorem placeless_program : Placeless program := by
  refine .get (fun c d hcd => by rw [hcd.length]) fun c => ?_
  exact (placeless_block _).bind fun _ => (alike_expect .eof).discard (placeless_pure _)

end Statements

end Parser

theorem Cursor.alike_ofTokens {ts us : List Token} (h : ts.map Token.lexeme = us.map Token.lexeme) :
    (ofTokens ts).Alike (ofTokens us) := by
  cases ts with
  | nil =>
      cases List.map_eq_nil_iff.1 h.symm
      exact ⟨rfl, rfl⟩
  | cons t ts =>
      obtain ⟨u, us, rfl, hu, hus⟩ := List.map_eq_cons_iff.1 h.symm
      exact ⟨hu.symm, by simp [ofTokens, endMark, Token.lexeme, hus]⟩

/-- Tokens that differ in their places only are the same program. -/
theorem parse_of_lexemes {ts us : List Token} (h : ts.map Token.lexeme = us.map Token.lexeme) {program : List Stmt}
    (hparse : parse ts = .ok program) : parse us = .ok program := by
  have hsame := Parser.placeless_program _ _ (Cursor.alike_ofTokens h)
  rw [parse] at hparse ⊢
  generalize Parser.program (Cursor.ofTokens ts) = r, Parser.program (Cursor.ofTokens us) = r' at hsame hparse ⊢
  cases hsame with
  | ok hab _ =>
      cases hab
      exact hparse
  | error => cases hparse

end Scriptlet
