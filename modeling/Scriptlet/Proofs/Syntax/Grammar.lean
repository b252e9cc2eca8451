import Mathlib.Tactic
import Scriptlet.Proofs.Syntax.Reading

/-!
# What programs are made of

A grammar of programs in which one token tells how to go on. A stack of symbols says what is still to come. The symbol
on top is either a token that has to come next, or is replaced as the next token tells. Every stack that comes up can be
emptied by some tokens, so that all tokens read so far are the beginning of a program.
-/

namespace Scriptlet.Grammar

open Scriptlet.Parser (Stops endsBlock stops_of_closes closes_of_endsBlock)
open Relation (ReflTransGen)

/-! ## Symbols -/

/-- Parts of programs. -/
inductive Symbol where
  | token (tag : Tag)
  | expr (level : Level)
  /-- Operators of a layer, each with its operand. -/
  | rest (layer : Layer)
  /-- Arguments in parentheses, if there are any. -/
  | call
  | args
  | moreArgs
  | params
  | moreParams
  | block
  /-- What makes a statement of the name that it begins with. -/
  | afterName
  /-- The second branch of a condition, if there is one. -/
  | otherwise
  /-- The value of a return, if there is one. -/
  | value
  /-- What follows a name after a return: the rest of its value, or of the next statement. -/
  | afterReturned
deriving DecidableEq

namespace Symbol

/-- A call, a name, an expression in parentheses or a literal. -/
def primary? : Tag → Option (List Symbol)
  | .name => some [token .name, call]
  | .lparen => some [token .lparen, expr .whole, token .rparen]
  | .boolean => some [token .boolean]
  | .number => some [token .number]
  | .string => some [token .string]
  | .nilKw => some [token .nilKw]
  | _ => none

/-- A statement and those after it, or nothing. -/
def statements : Tag → List Symbol
  | .ifKw => [token .ifKw, expr .whole, token .thenKw, block, otherwise, token .endKw, block]
  | .whileKw => [token .whileKw, expr .whole, token .doKw, block, token .endKw, block]
  | .returnKw => [token .returnKw, value, block]
  | .breakKw => [token .breakKw, block]
  | .functionKw =>
    [token .functionKw, token .name, token .lparen, params, token .rparen, block, token .endKw, block]
  | .name => [token .name, afterName, block]
  | _ => []

/-- What may come after the name that an expression begins with. -/
def afterOperand : List Symbol :=
  [call, rest .product, rest .sum, rest .comparison, rest .equality, rest .conjunction, rest .disjunction]

/-- What takes the place of a symbol before a token. -/
def expand? : Symbol → Tag → Option (List Symbol)
  | token _, _ => none
  | expr (.layer layer), _ => some [expr layer.operands, rest layer]
  | expr .prefixes, tag =>
    if (UnaryOp.ofTag? tag).isSome then some [token tag, expr .prefixes] else some [expr .primary]
  | expr .primary, tag => primary? tag
  | rest layer, tag =>
    if (layer.operator? tag).isSome then some [token tag, expr layer.operands, rest layer] else some []
  | call, tag => if tag = .lparen then some [token .lparen, args, token .rparen] else some []
  | args, tag => if tag = .rparen then some [] else some [expr .whole, moreArgs]
  | moreArgs, tag => if tag = .rparen ∨ tag = .eof then some [] else some [token .comma, expr .whole, moreArgs]
  | params, tag => if tag = .rparen then some [] else some [token .name, moreParams]
  | moreParams, tag => if tag = .rparen then some [] else some [token .comma, token .name, moreParams]
  | block, tag => some (statements tag)
  | afterName, tag =>
    if tag = .lparen then some [token .lparen, args, token .rparen] else some [token .assign, expr .whole]
  | otherwise, tag => if tag = .endKw then some [] else some [token .elseKw, block]
  | value, tag =>
    if tag = .name then some [token .name, afterReturned]
    else if tag.startsExpression then some [expr .whole] else some []
  | afterReturned, tag =>
    if tag = .assign then some [token .assign, expr .whole]
    else some afterOperand

end Symbol

open Scriptlet.Grammar.Symbol

/-! ## Runs -/

/-- A stack and the tokens that are left. -/
abbrev Config := List Symbol × List Token

/-- A token is taken, or the symbol on top is replaced. -/
inductive Step : Config → Config → Prop
  | take {a : Tag} {t : Token} {σ : List Symbol} {ts : List Token} : t.tag = a →
      Step (token a :: σ, t :: ts) (σ, ts)
  | expand {s : Symbol} {t : Token} {new σ : List Symbol} {ts : List Token} : s.expand? t.tag = some new →
      Step (s :: σ, t :: ts) (new ++ σ, t :: ts)

/-- Steps lead from one to the other. -/
def Leads : Config → Config → Prop :=
  ReflTransGen Step

/-- Steps lead to where there is no step. -/
def Settles (x r : Config) : Prop :=
  Leads x r ∧ ∀ y, ¬ Step r y

section Runs

variable {x y z r : Config} {σ τ : List Symbol} {t : Token} {ts : List Token}

theorem Step.unique (hy : Step x y) (hz : Step x z) : y = z := by
  cases hy with
  | take ha =>
      cases hz with
      | take _ => rfl
      | expand hnew => cases hnew
  | expand hnew =>
      cases hz with
      | take _ => cases hnew
      | expand hnew' =>
          rw [hnew] at hnew'
          cases hnew'
          rfl

theorem Settles.head (hstep : Step x y) (h : Settles y r) : Settles x r :=
  ⟨ReflTransGen.head hstep h.1, h.2⟩

theorem Settles.tail (hstep : Step x y) (h : Settles x r) : Settles y r := by
  rcases ReflTransGen.cases_head h.1 with rfl | ⟨z, hz, hleads⟩
  · exact absurd hstep (h.2 y)
  · rw [hstep.unique hz]
    exact ⟨hleads, h.2⟩

/-- Runs that meet come to the same end. -/
theorem Settles.of_meet (hx : Leads x z) (hy : Leads y z) (h : Settles x r) : Settles y r := by
  have hz : Settles z r := by
    clear hy
    induction hx with
    | refl => exact h
    | tail _ hstep ih => exact ih.tail hstep
  exact ⟨hy.trans hz.1, hz.2⟩

theorem Settles.unique {r' : Config} (h : Settles x r) (h' : Settles x r') : r = r' := by
  obtain ⟨hleads, hstuck⟩ := h
  induction hleads using ReflTransGen.head_induction_on with
  | refl =>
      rcases ReflTransGen.cases_head h'.1 with hr | ⟨y, hy, -⟩
      · exact hr
      · exact absurd hy (hstuck y)
  | head hstep _ ih => exact ih (h'.tail hstep)

theorem Leads.suffix (h : Leads x y) : y.2 <:+ x.2 := by
  induction h with
  | refl => exact List.suffix_refl _
  | tail _ hstep ih =>
      refine List.IsSuffix.trans ?_ ih
      cases hstep with
      | take _ => exact List.suffix_cons _ _
      | expand _ => exact List.suffix_refl _

theorem not_step_nil (ts : List Token) (y : Config) : ¬ Step ([], ts) y := by
  rintro ⟨⟩

theorem not_step_cons {s : Symbol} (htoken : s ≠ token t.tag) (hnone : s.expand? t.tag = none) (y : Config) :
    ¬ Step (s :: σ, t :: ts) y := by
  intro hstep
  cases hstep with
  | take htag => exact htoken (congrArg token htag.symm)
  | expand hnew => cases hnone.symm.trans hnew

/-- Whether there is a step depends on the first token only. -/
theorem not_step_of_head {us : List Token} (h : ∀ y, ¬ Step (σ, t :: ts) y) (y : Config) : ¬ Step (σ, t :: us) y := by
  intro hstep
  cases hstep with
  | take ha => exact h _ (.take ha)
  | expand hnew => exact h _ (.expand hnew)

/-- When some tokens are taken, a stack is reached that does not depend on what comes after them. What happens then
depends on the next token only. -/
theorem Leads.split {taken : List Token} (h : Leads (σ, taken ++ t :: ts) (τ, t :: ts)) :
    ∃ σ₀, (∀ us, Leads (σ, taken ++ us) (σ₀, us)) ∧ ∀ us, Leads (σ₀, t :: us) (τ, t :: us) := by
  generalize hx : (σ, taken ++ t :: ts) = x at h
  induction h using ReflTransGen.head_induction_on generalizing σ taken with
  | refl =>
      obtain ⟨rfl, htaken⟩ := Prod.mk.inj hx
      obtain rfl : taken = [] := by simpa using htaken
      exact ⟨σ, fun _ => .refl, fun _ => .refl⟩
  | head hstep hleads ih =>
      subst hx
      cases taken with
      | nil =>
          cases hstep with
          | take ha =>
              have hlength := (Leads.suffix hleads).length_le
              simp at hlength
          | expand hnew =>
              obtain ⟨σ₀, hbefore, hafter⟩ := @ih _ [] rfl
              exact ⟨_, fun _ => .refl, fun us => .head (.expand hnew) ((hbefore (t :: us)).trans (hafter us))⟩
      | cons first taken =>
          cases hstep with
          | take ha =>
              obtain ⟨σ₀, hbefore, hafter⟩ := ih rfl
              exact ⟨σ₀, fun us => .head (.take ha) (hbefore us), hafter⟩
          | expand hnew =>
              obtain ⟨σ₀, hbefore, hafter⟩ := @ih _ (first :: taken) rfl
              exact ⟨σ₀, fun us => .head (.expand hnew) (hbefore us), hafter⟩

end Runs

/-! ## Names after returns -/

section Names

variable {σ : List Symbol} {t next : Token} {ts : List Token}

theorem leads_expr_name (ht : t.tag = .name) : Leads (expr .whole :: σ, t :: ts) (afterOperand ++ σ, ts) := by
  have hprefixes : (expr .prefixes).expand? t.tag = some [expr .primary] := by rw [ht]; rfl
  have hprimary : (expr .primary).expand? t.tag = some [token .name, call] := by rw [ht]; rfl
  refine .head (.expand rfl) (.head (.expand rfl) (.head (.expand rfl) ?_))
  refine .head (.expand rfl) (.head (.expand rfl) (.head (.expand rfl) ?_))
  exact .head (.expand hprefixes) (.head (.expand hprimary) (.single (.take ht)))

theorem leads_value_name (ht : t.tag = .name) (hnext : next.tag ≠ .assign) :
    Leads (value :: σ, t :: next :: ts) (afterOperand ++ σ, next :: ts) :=
  .head (.expand (if_pos ht)) (.head (.take ht) (.single (.expand (if_neg hnext))))

theorem leads_value_assign (ht : t.tag = .name) (hnext : next.tag = .assign) :
    Leads (value :: σ, t :: next :: ts) (token .assign :: expr .whole :: σ, next :: ts) := by
  have hassign : afterReturned.expand? next.tag = some [token .assign, expr .whole] := if_pos hnext
  exact .head (.expand (if_pos ht)) (.head (.take ht) (.single (.expand hassign)))

theorem leads_block_assign (ht : t.tag = .name) (hnext : next.tag = .assign) :
    Leads (block :: σ, t :: next :: ts) (token .assign :: expr .whole :: block :: σ, next :: ts) := by
  have hblock : block.expand? t.tag = some [token .name, afterName, block] := by rw [ht]; rfl
  have hassign : afterName.expand? next.tag = some [token .assign, expr .whole] := by rw [hnext]; rfl
  exact .head (.expand hblock) (.head (.take ht) (.single (.expand hassign)))

end Names

/-! ## Stacks that can be emptied -/

/-- Tokens that a symbol can stand for. -/
def Symbol.filler : Symbol → List Tag
  | token tag => [tag]
  | expr _ => [.nilKw]
  | afterName => [.assign, .nilKw]
  | _ => []

/-- Tokens that empty a stack. -/
def fill (σ : List Symbol) : List Tag :=
  σ.flatMap Symbol.filler

/-- The first of the tokens that empty a stack, and an end mark. -/
def lead (σ : List Symbol) : Tag :=
  (fill σ).headD .eof

/-- Which tokens may come after what a symbol stands for. -/
def Symbol.FollowedBy : Symbol → Tag → Prop
  | token tag, _ => (tag != .eof) = true
  | expr level, next => Stops level next
  | rest layer, next => Stops (.layer layer) next
  | call, next => next ≠ .lparen
  | args, next | moreArgs, next | params, next | moreParams, next => next = .rparen
  | otherwise, next => next = .endKw
  | block, next | afterName, next | value, next | afterReturned, next => endsBlock next = true

/-- Every symbol of a stack is followed by what may come after it, if those above and below it are filled in. -/
def Viable : List Symbol → Prop
  | [] => True
  | s :: σ => s.FollowedBy (lead σ) ∧ Viable σ

section Viability

variable {s : Symbol} {σ : List Symbol} {tag : Tag}

theorem stops_of_endsBlock {level : Level} (h : endsBlock tag = true) : Stops level tag :=
  stops_of_closes (closes_of_endsBlock h)

theorem ne_eof_of_ofTag? (h : (UnaryOp.ofTag? tag).isSome = true) : (tag != .eof) = true := by
  rw [bne_iff_ne]
  rintro rfl
  cases h

theorem ne_eof_of_operator? {layer : Layer} (h : (layer.operator? tag).isSome = true) : (tag != .eof) = true := by
  rw [bne_iff_ne]
  rintro rfl
  cases layer <;> cases h

theorem viable_statements (h : endsBlock (lead σ) = true) (hσ : Viable σ) : Viable (statements tag ++ σ) := by
  cases tag with
  | ifKw => exact ⟨rfl, stops_of_closes rfl, rfl, rfl, rfl, rfl, h, hσ⟩
  | whileKw => exact ⟨rfl, stops_of_closes rfl, rfl, rfl, rfl, h, hσ⟩
  | returnKw => exact ⟨rfl, h, h, hσ⟩
  | breakKw => exact ⟨rfl, h, hσ⟩
  | functionKw => exact ⟨rfl, rfl, rfl, rfl, rfl, rfl, rfl, h, hσ⟩
  | name => exact ⟨rfl, h, h, hσ⟩
  | _ => exact hσ

theorem viable_primary {new : List Symbol} (h : Stops .primary (lead σ)) (hσ : Viable σ)
    (hnew : primary? tag = some new) : Viable (new ++ σ) := by
  cases tag with
  | name => cases hnew; exact ⟨rfl, h.1, hσ⟩
  | lparen => cases hnew; exact ⟨rfl, stops_of_closes rfl, rfl, hσ⟩
  | boolean => cases hnew; exact ⟨rfl, hσ⟩
  | number => cases hnew; exact ⟨rfl, hσ⟩
  | string => cases hnew; exact ⟨rfl, hσ⟩
  | nilKw => cases hnew; exact ⟨rfl, hσ⟩
  | _ => cases hnew

/-- A stack stays viable when the symbol on top is replaced. -/
theorem Viable.expand {new : List Symbol} (h : Viable (s :: σ)) (hnew : s.expand? tag = some new) :
    Viable (new ++ σ) := by
  obtain ⟨hs, hσ⟩ := h
  cases s with
  | token a => cases hnew
  | expr level =>
      cases level with
      | layer layer => cases hnew; exact ⟨hs.operands, hs, hσ⟩
      | prefixes =>
          rw [expand?] at hnew
          split at hnew
          · rename_i hop
            cases hnew
            exact ⟨ne_eof_of_ofTag? hop, hs, hσ⟩
          · cases hnew
            exact ⟨⟨hs.1, fun layer hle => absurd hle (by cases layer <;> decide)⟩, hσ⟩
      | primary => exact viable_primary hs hσ hnew
  | rest layer =>
      rw [expand?] at hnew
      split at hnew
      · rename_i hop
        cases hnew
        exact ⟨ne_eof_of_operator? hop, hs.operands, hs, hσ⟩
      · cases hnew; exact hσ
  | call =>
      rw [expand?] at hnew
      split at hnew <;> cases hnew
      · exact ⟨rfl, rfl, rfl, hσ⟩
      · exact hσ
  | args =>
      rw [expand?] at hnew
      split at hnew <;> cases hnew
      · exact hσ
      · exact ⟨stops_of_closes (hs ▸ rfl), hs, hσ⟩
  | moreArgs =>
      rw [expand?] at hnew
      split at hnew <;> cases hnew
      · exact hσ
      · exact ⟨rfl, stops_of_closes (hs ▸ rfl), hs, hσ⟩
  | params =>
      rw [expand?] at hnew
      split at hnew <;> cases hnew
      · exact hσ
      · exact ⟨rfl, hs, hσ⟩
  | moreParams =>
      rw [expand?] at hnew
      split at hnew <;> cases hnew
      · exact hσ
      · exact ⟨rfl, rfl, hs, hσ⟩
  | block =>
      cases hnew
      exact viable_statements hs hσ
  | afterName =>
      rw [expand?] at hnew
      split at hnew <;> cases hnew
      · exact ⟨rfl, rfl, rfl, hσ⟩
      · exact ⟨rfl, stops_of_endsBlock hs, hσ⟩
  | otherwise =>
      rw [expand?] at hnew
      split at hnew <;> cases hnew
      · exact hσ
      · exact ⟨rfl, hs ▸ rfl, hσ⟩
  | value =>
      rw [expand?] at hnew
      split at hnew
      · cases hnew; exact ⟨rfl, hs, hσ⟩
      · split at hnew <;> cases hnew
        · exact ⟨stops_of_endsBlock hs, hσ⟩
        · exact hσ
  | afterReturned =>
      rw [expand?] at hnew
      split at hnew <;> cases hnew
      · exact ⟨rfl, stops_of_endsBlock hs, hσ⟩
      · have hstops : ∀ {level}, Stops level (lead σ) := stops_of_endsBlock hs
        exact ⟨(@hstops .primary).1, hstops, hstops, hstops, hstops, hstops, hstops, hσ⟩

theorem Viable.of_leads {x y : Config} (h : Leads x y) (hx : Viable x.1) : Viable y.1 := by
  induction h with
  | refl => exact hx
  | tail _ hstep ih =>
      cases hstep with
      | take _ => exact ih.2
      | expand hnew => exact ih.expand hnew

end Viability

/-! ## Filling in -/

section Filling

variable {s : Symbol} {σ : List Symbol} {t : Token} {ts : List Token}

theorem leads_nothing (hnone : s.expand? t.tag = some []) : Leads (s :: σ, t :: ts) (σ, t :: ts) :=
  .single (.expand hnone)

theorem leads_rest {layer : Layer} (h : Stops (.layer layer) t.tag) :
    Leads (rest layer :: σ, t :: ts) (σ, t :: ts) := by
  have hnew : (rest layer).expand? t.tag = some [] := by simp [expand?, h.2 layer (Nat.le_refl _)]
  exact leads_nothing hnew

theorem leads_afterReturned (h : endsBlock t.tag = true) : Leads (afterReturned :: σ, t :: ts) (σ, t :: ts) := by
  have hrest : ∀ {layer σ}, Leads (rest layer :: σ, t :: ts) (σ, t :: ts) := leads_rest (stops_of_endsBlock h)
  have hassign : t.tag ≠ .assign := by
    intro htag
    rw [htag] at h
    cases h
  have hcall : t.tag ≠ .lparen := (@stops_of_endsBlock _ .primary h).1
  refine .head (.expand (if_neg hassign)) (.trans (leads_nothing (if_neg hcall)) ?_)
  exact hrest.trans (hrest.trans (hrest.trans (hrest.trans (hrest.trans hrest))))

/-- A symbol that can stand for nothing does so before a token that may come after it. -/
theorem leads_of_filler (hfiller : s.filler = []) (h : s.FollowedBy t.tag) :
    Leads (s :: σ, t :: ts) (σ, t :: ts) := by
  cases s with
  | token tag => cases hfiller
  | expr level => cases hfiller
  | afterName => cases hfiller
  | rest layer => exact leads_rest h
  | call => exact leads_nothing (if_neg h)
  | args => exact leads_nothing (if_pos h)
  | moreArgs => exact leads_nothing (if_pos (.inl h))
  | params => exact leads_nothing (if_pos h)
  | moreParams => exact leads_nothing (if_pos h)
  | otherwise => exact leads_nothing (if_pos h)
  | block =>
      have hnone : statements t.tag = [] := by
        have hends : endsBlock t.tag = true := h
        cases htag : t.tag <;> rw [htag] at hends <;> first | rfl | cases hends
      exact leads_nothing (congrArg some hnone)
  | value =>
      have hnone : value.expand? t.tag = some [] := by
        have hends : endsBlock t.tag = true := h
        cases htag : t.tag <;> rw [htag] at hends <;> first | rfl | cases hends
      exact leads_nothing hnone
  | afterReturned => exact leads_afterReturned h

/-- Nil is an expression of every level. -/
theorem leads_expr (level : Level) (σ : List Symbol) (h : Stops level t.tag) :
    Leads (expr level :: σ, Token.mark .nilKw :: t :: ts) (σ, t :: ts) := by
  match level with
  | .primary => exact .head (.expand rfl) (.single (.take rfl))
  | .prefixes => exact .head (.expand rfl) (.head (.expand rfl) (.single (.take rfl)))
  | .layer layer =>
      exact .head (.expand rfl) ((leads_expr layer.operands (rest layer :: σ) h.operands).trans (leads_rest h))
termination_by 7 - level.rank
decreasing_by
  rw [Layer.rank_operands]
  cases layer <;> decide

/-- A viable stack is emptied by the tokens that fill it. -/
theorem leads_fill (hσ : Viable σ) {last : Token} (hlast : last.tag = .eof) :
    Leads (σ, (fill σ).map Token.mark ++ [last]) ([], [last]) := by
  induction σ with
  | nil => exact .refl
  | cons s σ ih =>
      obtain ⟨hs, hσ⟩ := hσ
      refine .trans ?_ (ih hσ)
      -- the token after what fills the symbol is the one by which the stack below is led
      obtain ⟨t, ts, hrest, ht⟩ : ∃ t ts, (fill σ).map Token.mark ++ [last] = t :: ts ∧ t.tag = lead σ := by
        cases hfill : fill σ with
        | nil => exact ⟨last, [], rfl, by rw [lead, hfill, hlast]; rfl⟩
        | cons tag tags => exact ⟨_, _, rfl, by rw [lead, hfill]; rfl⟩
      rw [← ht] at hs
      have hfill : fill (s :: σ) = s.filler ++ fill σ := rfl
      rw [hfill, List.map_append, List.append_assoc, hrest]
      cases s with
      | token tag => exact .single (.take rfl)
      | expr level => exact leads_expr level σ hs
      | afterName =>
          refine .head (.expand rfl) (.head (.take rfl) ?_)
          exact leads_expr .whole σ (stops_of_endsBlock hs)
      | _ => exact leads_of_filler rfl hs

theorem ne_eof_of_mem_fill (hσ : Viable σ) : ∀ tag ∈ fill σ, tag ≠ .eof := by
  induction σ with
  | nil => simp [fill]
  | cons s σ ih =>
      obtain ⟨hs, hσ⟩ := hσ
      have hfiller : ∀ tag ∈ s.filler, tag ≠ .eof := by
        cases s with
        | token tag => simpa [Symbol.filler] using bne_iff_ne.1 hs
        | _ => simp [Symbol.filler]
      intro tag htag
      rcases List.mem_append.1 htag with htag | htag
      · exact hfiller tag htag
      · exact ih hσ tag htag

end Filling

end Scriptlet.Grammar
