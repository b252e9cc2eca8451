import Scriptlet.Proofs.Syntax.Texts

/-!
# What a program mentions

The names and literals of a program, each as often as it is written: variables that are read, assigned or passed as
parameters, literals, and functions that are declared or called. In a program that was read, each of them is the text of
a token.
-/

namespace Scriptlet

/-- A name or a literal, with the part that it plays. -/
inductive Mention where
  | name (id : String)
  | literal (text : String)
  | function (id : String)
deriving DecidableEq

mutual

def Expr.mentions : Expr → List Mention
  | .chain _ operands _ => Expr.allMentions operands
  | .unary _ operand => operand.mentions
  | .name id => [.name id]
  | .literal _ text => [.literal text]
  | .paren inner => inner.mentions
  | .call callee args => .function callee :: Expr.allMentions args

def Expr.allMentions : List Expr → List Mention
  | [] => []
  | e :: es => e.mentions ++ Expr.allMentions es

end

mutual

def Stmt.mentions : Stmt → List Mention
  | .cond test thenBlock elseBlock => test.mentions ++ (Stmt.blockMentions thenBlock ++ Stmt.blockMentions elseBlock)
  | .loop test body => test.mentions ++ Stmt.blockMentions body
  | .ret none => []
  | .ret (some value) => value.mentions
  | .leave => []
  | .assign name value => .name name :: value.mentions
  | .function name params body => .function name :: (params.map .name ++ Stmt.blockMentions body)
  | .call callee args => .function callee :: Expr.allMentions args

def Stmt.blockMentions : List Stmt → List Mention
  | [] => []
  | s :: rest => s.mentions ++ Stmt.blockMentions rest

end

/-! ## Texts of mentions -/

def Mention.Fits (p : Texts) : Mention → Prop
  | .name id => p.name id
  | .literal text => ∃ kind, p.literal kind text
  | .function id => p.name id

section

variable {p : Texts}

mutual

theorem Expr.mentions_fit : (e : Expr) → (level : Level) → e.wellFormed level = true → e.Fits p →
    ∀ m ∈ e.mentions, m.Fits p
  | .chain _ [] _, _, hwf, _ => by simp [Expr.wellFormed, Expr.chainWellFormed] at hwf
  | .chain layer (e :: es) ops, _, hwf, hfits => by
      simp only [Expr.wellFormed, Expr.chainWellFormed, Bool.and_eq_true] at hwf
      obtain ⟨hfirst, htail⟩ := hfits.chain
      rw [Expr.mentions, Expr.allMentions, List.forall_mem_append]
      exact ⟨e.mentions_fit _ hwf.2.1 hfirst, Expr.tailMentions_fit es ops layer hwf.2.2 htail⟩
  | .unary _ operand, _, hwf, hfits => by
      simp only [Expr.wellFormed, Bool.and_eq_true] at hwf
      exact operand.mentions_fit _ hwf.2 hfits.unary
  | .name _, _, _, hfits => List.forall_mem_singleton.2 hfits.name
  | .literal kind _, _, _, hfits => List.forall_mem_singleton.2 ⟨kind, hfits.literal⟩
  | .paren inner, _, hwf, hfits => by
      simp only [Expr.wellFormed, Bool.and_eq_true] at hwf
      exact inner.mentions_fit _ hwf.2 hfits.paren
  | .call _ args, _, hwf, hfits => by
      simp only [Expr.wellFormed, Bool.and_eq_true] at hwf
      exact List.forall_mem_cons.2 ⟨hfits.call.1, Expr.argMentions_fit args hwf.2 hfits.call.2⟩

theorem Expr.tailMentions_fit : (es : List Expr) → (ops : List BinaryOp) → (layer : Layer) →
    Expr.tailWellFormed layer es ops = true → Expr.TailFits p es ops → ∀ m ∈ Expr.allMentions es, m.Fits p
  | [], _, _, _, _ => by simp [Expr.allMentions]
  | _ :: _, [], _, hwf, _ => by simp [Expr.tailWellFormed] at hwf
  | e :: es, _ :: ops, layer, hwf, hfits => by
      simp only [Expr.tailWellFormed, Bool.and_eq_true] at hwf
      obtain ⟨hfirst, htail⟩ := hfits.cons
      rw [Expr.allMentions, List.forall_mem_append]
      exact ⟨e.mentions_fit _ hwf.1.2 hfirst, Expr.tailMentions_fit es ops layer hwf.2 htail⟩

theorem Expr.argMentions_fit : (es : List Expr) → Expr.argsWellFormed es = true → (∀ e ∈ es, e.Fits p) →
    ∀ m ∈ Expr.allMentions es, m.Fits p
  | [], _, _ => by simp [Expr.allMentions]
  | e :: es, hwf, hfits => by
      simp only [Expr.argsWellFormed, Bool.and_eq_true] at hwf
      rw [List.forall_mem_cons] at hfits
      rw [Expr.allMentions, List.forall_mem_append]
      exact ⟨e.mentions_fit _ hwf.1 hfits.1, Expr.argMentions_fit es hwf.2 hfits.2⟩

end

mutual

theorem Stmt.mentions_fit : (s : Stmt) → s.wellFormed = true → s.Fits p → ∀ m ∈ s.mentions, m.Fits p
  | .cond test thenBlock elseBlock, hwf, hfits => by
      simp only [Stmt.wellFormed, Bool.and_eq_true] at hwf
      obtain ⟨htest, hthen, helse⟩ := hfits.cond
      rw [Stmt.mentions, List.forall_mem_append, List.forall_mem_append]
      exact ⟨test.mentions_fit _ hwf.1.1 htest, Stmt.blockMentions_fit thenBlock hwf.1.2 hthen,
        Stmt.blockMentions_fit elseBlock hwf.2 helse⟩
  | .loop test body, hwf, hfits => by
      simp only [Stmt.wellFormed, Bool.and_eq_true] at hwf
      rw [Stmt.mentions, List.forall_mem_append]
      exact ⟨test.mentions_fit _ hwf.1 hfits.loop.1, Stmt.blockMentions_fit body hwf.2 hfits.loop.2⟩
  | .ret none, _, _ => by simp [Stmt.mentions]
  | .ret (some value), hwf, hfits => value.mentions_fit _ hwf hfits.ret
  | .leave, _, _ => by simp [Stmt.mentions]
  | .assign _ value, hwf, hfits => List.forall_mem_cons.2 ⟨hfits.assign.1, value.mentions_fit _ hwf hfits.assign.2⟩
  | .function _ params body, hwf, hfits => by
      obtain ⟨hname, hparams, hbody⟩ := hfits.function hwf
      simp only [Stmt.wellFormed, Bool.and_eq_true] at hwf
      rw [Stmt.mentions, List.forall_mem_cons, List.forall_mem_append, List.forall_mem_map]
      exact ⟨hname, hparams, Stmt.blockMentions_fit body hwf.2 hbody⟩
  | .call _ args, hwf, hfits => List.forall_mem_cons.2 ⟨hfits.call.1, Expr.argMentions_fit args hwf hfits.call.2⟩

theorem Stmt.blockMentions_fit : (stmts : List Stmt) → Stmt.blockWellFormed stmts = true → Stmt.BlockFits p stmts →
    ∀ m ∈ Stmt.blockMentions stmts, m.Fits p
  | [], _, _ => by simp [Stmt.blockMentions]
  | s :: rest, hwf, hfits => by
      simp only [Stmt.blockWellFormed, Bool.and_eq_true] at hwf
      rw [Stmt.blockMentions, List.forall_mem_append]
      exact ⟨s.mentions_fit hwf.1.1 hfits.cons.1, Stmt.blockMentions_fit rest hwf.2 hfits.cons.2⟩

end

end

end Scriptlet
