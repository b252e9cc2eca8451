import Mathlib.Tactic
import Scriptlet.Proofs.Syntax.ValidPrefix

/-!
# Reading ends

Readers are the parsers with a limit on how deep calls may be nested in place of the bounds, and give nothing where calls
are nested deeper. Ten times as many calls as there are tokens are enough, whatever the tokens are and wherever earlier
calls stopped, and what is read is what the parsers give. The cursor only moves forward, over tokens before the first end
mark, and after an error it stands at the token that is reported.
-/

namespace Scriptlet

/-! ## Readers -/

/-- Readers move a cursor as parsers do, and give nothing where calls are nested too deep. -/
abbrev Reader := ExceptT ParseError (StateT Cursor Option)

namespace Reader

/-- A parser that makes no calls, as a reader. -/
def of {α : Type} (p : Parser α) : Reader α := fun c =>
  match p c with
  | .ok a c' => some (.ok a, c')
  | .error e c' => some (.error e, c')

/-- A call beyond the limit. -/
def tooDeep {α : Type} : Reader α :=
  fun _ => none

def unaryOps : Nat → Reader (List UnaryOp)
  | 0 => tooDeep
  | depth + 1 => do
    match UnaryOp.ofTag? (← get).tag with
    | none => return []
    | some op =>
      let _ ← of Parser.take
      return op :: (← unaryOps depth)

mutual

/-- An expression of a level. -/
def atLevel : Nat → Level → Reader Expr
  | 0, _ => tooDeep
  | depth + 1, .primary => primary depth
  | depth + 1, .prefixes => do
    let ops ← unaryOps depth
    return .unary ops (← primary depth)
  | depth + 1, .layer layer => do
    let e ← atLevel depth layer.operands
    let (es, ops) ← chainTail depth layer
    return .chain layer (e :: es) ops

def chainTail : Nat → Layer → Reader (List Expr × List BinaryOp)
  | 0, _ => tooDeep
  | depth + 1, layer => do
    match layer.operator? (← get).tag with
    | none => return ([], [])
    | some op =>
      let _ ← of Parser.take
      let e ← atLevel depth layer.operands
      let (es, ops) ← chainTail depth layer
      return (e :: es, op :: ops)

def moreArguments : Nat → Reader (List Expr)
  | 0 => tooDeep
  | depth + 1 => do
    let tag := (← get).tag
    if tag = .rparen ∨ tag = .eof then return []
    else
      let _ ← of (Parser.expect .comma)
      let e ← atLevel depth .whole
      return e :: (← moreArguments depth)

def callee : Nat → Reader (String × List Expr)
  | 0 => tooDeep
  | depth + 1 => do
    let name ← of Parser.takeName
    let _ ← of (Parser.expect .lparen)
    let args ←
      if (← get).tag = .rparen then pure []
      else do
        let e ← atLevel depth .whole
        pure (e :: (← moreArguments depth))
    let _ ← of (Parser.expect .rparen)
    return (name, args)

def primary : Nat → Reader Expr
  | 0 => tooDeep
  | depth + 1 => do
    let c ← get
    match c.tag with
    | .name =>
      if c.nextTag = .lparen then
        let (name, args) ← callee depth
        return .call name args
      else return .name (← of Parser.take).text
    | .lparen =>
      let _ ← of Parser.take
      let e ← atLevel depth .whole
      let _ ← of (Parser.expect .rparen)
      return .paren e
    | .boolean => of (Parser.literal .boolean)
    | .number => of (Parser.literal .number)
    | .string => of (Parser.literal .string)
    | .nilKw => of (Parser.literal .nil)
    | _ => of Parser.unexpected

end

def moreParams : Nat → Reader (List String)
  | 0 => tooDeep
  | depth + 1 => do
    if (← get).tag = .rparen then return []
    else
      let _ ← of (Parser.expect .comma)
      let p ← of Parser.takeName
      return p :: (← moreParams depth)

def params (depth : Nat) : Reader (List String) := do
  if (← get).tag = .rparen then return []
  else
    let p ← of Parser.takeName
    return p :: (← moreParams depth)

def ret (depth : Nat) : Reader Stmt := do
  let _ ← of (Parser.expect .returnKw)
  let c ← get
  if c.tag.startsExpression ∧ (c.tag ≠ .name ∨ c.nextTag ≠ .assign) then
    return .ret (some (← atLevel depth .whole))
  else return .ret none

def assign (depth : Nat) : Reader Stmt := do
  let name ← of Parser.takeName
  let _ ← of (Parser.expect .assign)
  return .assign name (← atLevel depth .whole)

mutual

def cond : Nat → Reader Stmt
  | 0 => tooDeep
  | depth + 1 => do
    let _ ← of (Parser.expect .ifKw)
    let test ← atLevel depth .whole
    let _ ← of (Parser.expect .thenKw)
    let thenBlock ← block depth
    let elseBlock ←
      if (← get).tag = .endKw then pure []
      else do
        let _ ← of (Parser.expect .elseKw)
        block depth
    let _ ← of (Parser.expect .endKw)
    return .cond test thenBlock elseBlock

def loop : Nat → Reader Stmt
  | 0 => tooDeep
  | depth + 1 => do
    let _ ← of (Parser.expect .whileKw)
    let test ← atLevel depth .whole
    let _ ← of (Parser.expect .doKw)
    let body ← block depth
    let _ ← of (Parser.expect .endKw)
    return .loop test body

def function : Nat → Reader Stmt
  | 0 => tooDeep
  | depth + 1 => do
    let _ ← of (Parser.expect .functionKw)
    let name ← of Parser.takeName
    let _ ← of (Parser.expect .lparen)
    let ps ← params depth
    let _ ← of (Parser.expect .rparen)
    let body ← block depth
    let _ ← of (Parser.expect .endKw)
    return .function name ps (body ++ [.ret none])

/-- A statement. -/
def statement : Nat → Reader Stmt
  | 0 => tooDeep
  | depth + 1 => do
    let c ← get
    match c.tag with
    | .ifKw => cond depth
    | .whileKw => loop depth
    | .returnKw => ret depth
    | .breakKw =>
      let _ ← of Parser.take
      return .leave
    | .functionKw => function depth
    | .name =>
      if c.nextTag = .lparen then
        let (name, args) ← callee depth
        return .call name args
      else assign depth
    | _ => of Parser.unexpected

/-- Statements up to the first token that begins none. -/
def block : Nat → Reader (List Stmt)
  | 0 => tooDeep
  | depth + 1 => do
    if (← get).tag.startsStatement then
      let s ← statement depth
      return s :: (← block depth)
    else return []

end

/-- A whole program, up to an end mark. -/
def program (depth : Nat) : Reader (List Stmt) := do
  let stmts ← block depth
  let _ ← of (Parser.expect .eof)
  return stmts

section Bind

variable {α β : Type} {r : Reader α} {g : α → Reader β} {c c' : Cursor}

theorem get_bind {g : Cursor → Reader β} : (get >>= g) c = g c c :=
  rfl

theorem bind_ok {x : α} (h : r c = some (.ok x, c')) : (r >>= g) c = g x c' := by
  show Option.bind (r c) _ = _
  rw [h]
  rfl

theorem bind_error {e : ParseError} (h : r c = some (.error e, c')) : (r >>= g) c = some (.error e, c') := by
  show Option.bind (r c) _ = _
  rw [h]
  rfl

end Bind

end Reader

/-! ## Cursors on their way -/

namespace Cursor

variable {c c' c'' : Cursor}

/-- A cursor moves forward to another over tokens that are no end marks. -/
def Reaches (c c' : Cursor) : Prop :=
  ∃ passed, c.toList = passed ++ c'.toList ∧ ∀ t ∈ passed, t.tag ≠ .eof

theorem Reaches.refl (c : Cursor) : c.Reaches c :=
  ⟨[], rfl, by simp⟩

theorem Reaches.trans (h : c.Reaches c') (h' : c'.Reaches c'') : c.Reaches c'' := by
  obtain ⟨passed, htokens, hpassed⟩ := h
  obtain ⟨passed', htokens', hpassed'⟩ := h'
  refine ⟨passed ++ passed', by rw [htokens, htokens', List.append_assoc], ?_⟩
  intro t ht
  exact (List.mem_append.1 ht).elim (hpassed t) (hpassed' t)

theorem HasEnd.reaches_advance (h : c.HasEnd) (htag : c.tag ≠ .eof) : c.Reaches c.advance :=
  ⟨[c.current], (h.advance htag).1, fun _ ht => List.mem_singleton.1 ht ▸ htag⟩

theorem HasEnd.of_reaches (h : c.HasEnd) (hc : c.Reaches c') : c'.HasEnd := by
  obtain ⟨t, ht, heof⟩ := h
  obtain ⟨passed, htokens, hpassed⟩ := hc
  rw [htokens, List.mem_append] at ht
  exact ht.elim (fun ht => absurd heof (hpassed t ht)) fun ht => ⟨t, ht, heof⟩

theorem advance_eq_self (h : c.tag = .eof) : c.advance = c := by
  simp [advance, h]

/-- The cursor stands at the token of number `k`, and no end mark is before it. -/
structure StandsAt (c : Cursor) (tokens : List Token) (k : Nat) : Prop where
  token : tokens[k]? = some c.current
  tail : tokens.drop k = c.toList
  before : ∀ t ∈ tokens.take k, t.tag ≠ .eof

theorem standsAt_zero (c : Cursor) : c.StandsAt c.toList 0 :=
  ⟨rfl, rfl, by simp⟩

theorem StandsAt.of_reaches {tokens : List Token} {k : Nat} (h : c.StandsAt tokens k) (hc : c.Reaches c') :
    ∃ k', c'.StandsAt tokens k' ∧ k' + c'.upcoming.length = k + c.upcoming.length ∧ k ≤ k' := by
  obtain ⟨passed, htokens, hpassed⟩ := hc
  have htail : tokens.drop (k + passed.length) = c'.toList := by
    rw [← List.drop_drop, h.tail, htokens, List.drop_left]
  refine ⟨k + passed.length, ⟨?_, htail, ?_⟩, ?_, Nat.le_add_right _ _⟩
  · rw [← Nat.add_zero (k + passed.length), ← List.getElem?_drop, htail]
    rfl
  · intro t ht
    rw [List.take_add, h.tail, htokens, List.take_left, List.mem_append] at ht
    exact ht.elim (h.before t) (hpassed t)
  · have hlength := congrArg List.length htokens
    simp [toList] at hlength
    omega

end Cursor

/-! ## Parsers that end -/

namespace Parser

/-- A reader does what a parser does and is not nested too deep. If that is a success, fewer than `n` tokens are left after
the current one, and if it is an error, it is at the current token. -/
def Ends {α : Type} (c : Cursor) (p : Parser α) (r : Reader α) (n : Nat) : Prop :=
  c.HasEnd → r c = Reader.of p c ∧ match p c with
    | .ok _ c' => c.Reaches c' ∧ c'.upcoming.length < n
    | .error e c' => c.Reaches c' ∧ e.token = c'.current

section Rules

variable {α β : Type} {c : Cursor} {p : Parser α} {r : Reader α} {f : α → Parser β} {g : α → Reader β} {m n : Nat}

theorem Ends.pure {x : α} (h : c.upcoming.length < n) : Ends c (pure x) (pure x) n :=
  fun _ => ⟨rfl, .refl c, h⟩

/-- A parser looks at the cursor for its bound, which the reader does not need. -/
theorem Ends.bounded {f : Cursor → Parser β} {r : Reader β} (h : Ends c (f c) r n) : Ends c (get >>= f) r n :=
  h

theorem Ends.get {f : Cursor → Parser β} {g : Cursor → Reader β} (h : Ends c (f c) (g c) n) :
    Ends c (get >>= f) (get >>= g) n :=
  h

theorem Ends.unexpected : Ends (α := α) c unexpected (.of unexpected) n :=
  fun _ => ⟨rfl, .refl c, rfl⟩

theorem Ends.bind (hp : Ends c p r m) (hf : ∀ x c', c'.upcoming.length < m → Ends c' (f x) (g x) n) :
    Ends c (p >>= f) (r >>= g) n := by
  intro hc
  obtain ⟨hr, hfirst⟩ := hp hc
  cases hresult : p c with
  | error e c' =>
      have hread : r c = some (.error e, c') := by rw [hr, Reader.of, hresult]
      rw [hresult] at hfirst
      rw [Reader.bind_error hread, Reader.of, bind_error hresult]
      exact ⟨rfl, hfirst⟩
  | ok x c' =>
      have hread : r c = some (.ok x, c') := by rw [hr, Reader.of, hresult]
      rw [hresult] at hfirst
      obtain ⟨hreach, hlength⟩ := hfirst
      obtain ⟨hg, hsecond⟩ := hf x c' hlength (hc.of_reaches hreach)
      rw [Reader.bind_ok hread, hg, Reader.of, Reader.of, bind_ok hresult]
      refine ⟨rfl, ?_⟩
      cases hresult' : f x c' with
      | error e c'' =>
          rw [hresult'] at hsecond
          exact ⟨hreach.trans hsecond.1, hsecond.2⟩
      | ok y c'' =>
          rw [hresult'] at hsecond
          exact ⟨hreach.trans hsecond.1, hsecond.2⟩

end Rules

/-! ## Single tokens -/

section Tokens

variable {c : Cursor} {a : Tag}

theorem ends_take (hc : c.tag ≠ .eof) : Ends c take (.of take) c.upcoming.length := by
  intro hend
  obtain ⟨-, -, hlength, -⟩ := hend.advance hc
  exact ⟨rfl, hend.reaches_advance hc, hlength⟩

theorem ends_expect (ha : a ≠ .eof) : Ends c (expect a) (.of (expect a)) c.upcoming.length := by
  intro hend
  refine ⟨rfl, ?_⟩
  rw [expect, get_bind]
  by_cases hc : c.tag = a
  · rw [if_pos hc]
    exact (ends_take (hc ▸ ha) hend).2
  · rw [if_neg hc]
    exact ⟨.refl c, rfl⟩

theorem ends_takeName : Ends c takeName (.of takeName) c.upcoming.length := by
  intro hend
  refine ⟨rfl, ?_⟩
  rw [takeName, get_bind]
  by_cases hc : c.tag = .name
  · rw [if_pos hc]
    exact (ends_take (by simp [hc]) hend).2
  · rw [if_neg hc]
    exact ⟨.refl c, rfl⟩

end Tokens

/-! ## Expressions -/

section Expressions

variable {operand inner : Parser Expr} {layer : Layer} {b : Nat}

theorem ends_chainTail
    (hoperand : ∀ c depth, c.upcoming.length ≤ b → 10 * c.upcoming.length + 10 ≤ depth →
      Ends c operand (.atLevel depth layer.operands) c.upcoming.length)
    {bound depth : Nat} {c : Cursor} (hbound : c.upcoming.length < bound) (hb : c.upcoming.length ≤ b)
    (hdepth : 10 * c.upcoming.length + 11 ≤ depth) :
    Ends c (chainTail layer operand bound) (.chainTail depth layer) (c.upcoming.length + 1) := by
  have heof : layer.operator? .eof = none := by cases layer <;> rfl
  induction bound generalizing c depth with
  | zero => omega
  | succ bound ih =>
      obtain ⟨depth, rfl⟩ := Nat.exists_eq_add_one.2 (show 0 < depth by omega)
      rw [Reader.chainTail]
      apply Ends.get
      cases hop : layer.operator? c.tag with
      | none => exact .pure (Nat.lt_succ_self _)
      | some op =>
          have htag : c.tag ≠ .eof := fun hc => by simp [hc, heof] at hop
          refine (ends_take htag).bind fun _ c₁ h₁ => ?_
          refine (hoperand c₁ depth (by omega) (by omega)).bind fun _ c₂ h₂ => ?_
          exact (ih (by omega) (by omega) (by omega)).bind fun _ c₃ h₃ => .pure (by omega)

theorem ends_unaryOps {bound depth : Nat} {c : Cursor} (hbound : c.upcoming.length ≤ bound)
    (hdepth : c.upcoming.length < depth) : Ends c (unaryOps bound) (.unaryOps depth) (c.upcoming.length + 1) := by
  induction bound generalizing c depth with
  | zero =>
      -- only an end mark is left, so the bound is used up where no operator follows
      intro hend
      have hnone : UnaryOp.ofTag? c.tag = none := by rw [hend.tag_eq (Nat.le_zero.1 hbound)]; rfl
      obtain ⟨depth, rfl⟩ := Nat.exists_eq_add_one.2 (show 0 < depth by omega)
      have hread : Reader.unaryOps (depth + 1) c = some (.ok [], c) := by
        rw [Reader.unaryOps, Reader.get_bind, hnone]
        rfl
      exact ⟨hread, .refl c, Nat.lt_succ_self _⟩
  | succ bound ih =>
      obtain ⟨depth, rfl⟩ := Nat.exists_eq_add_one.2 (show 0 < depth by omega)
      rw [Reader.unaryOps]
      apply Ends.get
      cases hop : UnaryOp.ofTag? c.tag with
      | none => exact .pure (Nat.lt_succ_self _)
      | some op =>
          have htag : c.tag ≠ .eof := fun hc => by simp [hc, UnaryOp.ofTag?] at hop
          refine (ends_take htag).bind fun _ c₁ h₁ => ?_
          exact (ih (by omega) (by omega)).bind fun _ c₂ h₂ => .pure (by omega)

variable (hinner : ∀ c depth, c.upcoming.length < b → 10 * c.upcoming.length + 10 ≤ depth →
    Ends c inner (.atLevel depth .whole) c.upcoming.length)

include hinner

theorem ends_moreArguments {bound depth : Nat} {c : Cursor} (hbound : c.upcoming.length < bound)
    (hb : c.upcoming.length ≤ b) (hdepth : 10 * c.upcoming.length + 11 ≤ depth) :
    Ends c (moreArguments inner bound) (.moreArguments depth) (c.upcoming.length + 1) := by
  induction bound generalizing c depth with
  | zero => omega
  | succ bound ih =>
      obtain ⟨depth, rfl⟩ := Nat.exists_eq_add_one.2 (show 0 < depth by omega)
      rw [Reader.moreArguments]
      apply Ends.get
      dsimp only
      split
      · exact .pure (Nat.lt_succ_self _)
      · refine (ends_expect (by simp)).bind fun _ c₁ h₁ => ?_
        refine (hinner c₁ depth (by omega) (by omega)).bind fun _ c₂ h₂ => ?_
        exact (ih (by omega) (by omega) (by omega)).bind fun _ c₃ h₃ => .pure (by omega)

theorem ends_callee {c : Cursor} {depth : Nat} (hb : c.upcoming.length ≤ b)
    (hdepth : 10 * c.upcoming.length + 1 ≤ depth) : Ends c (callee inner b) (.callee depth) c.upcoming.length := by
  obtain ⟨depth, rfl⟩ := Nat.exists_eq_add_one.2 (show 0 < depth by omega)
  rw [Reader.callee]
  refine ends_takeName.bind fun name c₁ h₁ => ?_
  refine (ends_expect (by simp)).bind fun _ c₂ h₂ => ?_
  have hclose : ∀ {c₃ : Cursor} {es : List Expr}, c₃.upcoming.length < c.upcoming.length →
      Ends c₃ (expect .rparen >>= fun _ => pure (name, es)) (.of (expect .rparen) >>= fun _ => pure (name, es))
        c.upcoming.length := fun h₃ =>
    (ends_expect (by simp)).bind fun _ c₄ h₄ => .pure (by omega)
  apply Ends.get
  split
  · exact hclose (by omega)
  · refine (hinner c₂ depth (by omega) (by omega)).bind fun _ c₃ h₃ => ?_
    exact (ends_moreArguments hinner (by omega) (by omega) (by omega)).bind fun _ c₄ h₄ => hclose (by omega)

theorem ends_primary {c : Cursor} {depth : Nat} (hb : c.upcoming.length ≤ b)
    (hdepth : 10 * c.upcoming.length + 2 ≤ depth) : Ends c (primary inner b) (.primary depth) c.upcoming.length := by
  have hliteral : ∀ {kind : LiteralKind}, c.tag = kind.tag →
      Ends c (literal kind) (.of (literal kind)) c.upcoming.length := by
    intro kind htag
    have hne : c.tag ≠ .eof := by cases kind <;> simp [htag, LiteralKind.tag]
    exact (ends_take hne).bind fun _ _ h => .pure (by omega)
  obtain ⟨depth, rfl⟩ := Nat.exists_eq_add_one.2 (show 0 < depth by omega)
  rw [Reader.primary]
  apply Ends.get
  cases htag : c.tag with
  | name =>
      dsimp only
      split
      · exact (ends_callee hinner hb (by omega)).bind fun _ _ h => .pure h
      · exact (ends_take (by simp [htag])).bind fun _ _ h => .pure h
  | lparen =>
      refine (ends_take (by simp [htag])).bind fun _ c₁ h₁ => ?_
      refine (hinner c₁ depth (by omega) (by omega)).bind fun _ c₂ h₂ => ?_
      exact (ends_expect (by simp)).bind fun _ c₃ h₃ => .pure (by omega)
  | boolean => exact hliteral htag
  | number => exact hliteral htag
  | string => exact hliteral htag
  | nilKw => exact hliteral htag
  | _ => exact .unexpected

theorem ends_atLevel : (level : Level) → ∀ {c : Cursor} {depth : Nat}, c.upcoming.length ≤ b →
    10 * c.upcoming.length + 10 ≤ depth + level.rank →
    Ends c (atLevel inner b level) (.atLevel depth level) c.upcoming.length
  | .primary, c, depth, hb, hdepth => by
      rw [Level.rank] at hdepth
      obtain ⟨depth, rfl⟩ := Nat.exists_eq_add_one.2 (show 0 < depth by omega)
      rw [atLevel, Reader.atLevel]
      exact ends_primary hinner hb (by omega)
  | .prefixes, c, depth, hb, hdepth => by
      rw [Level.rank] at hdepth
      obtain ⟨depth, rfl⟩ := Nat.exists_eq_add_one.2 (show 0 < depth by omega)
      rw [atLevel, Reader.atLevel]
      refine (ends_unaryOps hb (by omega)).bind fun _ c₁ h₁ => ?_
      exact (ends_primary hinner (by omega) (by omega)).bind fun _ c₂ h₂ => .pure (by omega)
  | .layer layer, c, depth, hb, hdepth => by
      have hrank : layer.rank ≤ 5 := by cases layer <;> decide
      rw [Level.rank] at hdepth
      obtain ⟨depth, rfl⟩ := Nat.exists_eq_add_one.2 (show 0 < depth by omega)
      have hoperands := layer.rank_operands
      rw [atLevel, Reader.atLevel]
      refine (ends_atLevel layer.operands hb (by omega)).bind fun _ c₁ h₁ => ?_
      -- the first operand took a token, so the bound exceeds what is left for the others
      have htail := ends_chainTail (fun c depth hc hdepth => ends_atLevel layer.operands hc (by omega))
        (show c₁.upcoming.length < b by omega) (by omega) (show _ ≤ depth by omega)
      exact htail.bind fun _ c₂ h₂ => .pure (by omega)
termination_by level => 7 - level.rank
decreasing_by
  all_goals
    rw [Layer.rank_operands]
    cases layer <;> decide

end Expressions

theorem ends_expr {b depth : Nat} {c : Cursor} (hb : c.upcoming.length < b)
    (hdepth : 10 * c.upcoming.length + 10 ≤ depth) :
    Ends c (expr b) (.atLevel depth .whole) c.upcoming.length := by
  induction b generalizing c depth with
  | zero => omega
  | succ b ih =>
      rw [expr_succ]
      exact ends_atLevel (fun _ _ => ih) .whole (Nat.le_of_lt_succ hb) (Nat.le_add_right_of_le hdepth)

/-! ## Statements -/

theorem ends_moreParams {bound depth : Nat} {c : Cursor} (hbound : c.upcoming.length < bound)
    (hdepth : c.upcoming.length < depth) : Ends c (moreParams bound) (.moreParams depth) (c.upcoming.length + 1) := by
  induction bound generalizing c depth with
  | zero => omega
  | succ bound ih =>
      obtain ⟨depth, rfl⟩ := Nat.exists_eq_add_one.2 (show 0 < depth by omega)
      rw [Reader.moreParams]
      apply Ends.get
      split
      · exact .pure (Nat.lt_succ_self _)
      · refine (ends_expect (by simp)).bind fun _ c₁ h₁ => ?_
        refine ends_takeName.bind fun _ c₂ h₂ => ?_
        exact (ih (by omega) (by omega)).bind fun _ c₃ h₃ => .pure (by omega)

section Statements

variable {b depth : Nat} {c : Cursor}

theorem ends_params (hb : c.upcoming.length < b) (hdepth : c.upcoming.length < depth) :
    Ends c (params b) (.params depth) (c.upcoming.length + 1) := by
  apply Ends.get
  split
  · exact .pure (Nat.lt_succ_self _)
  · refine ends_takeName.bind fun _ c₁ h₁ => ?_
    exact (ends_moreParams (by omega) (by omega)).bind fun _ c₂ h₂ => .pure (by omega)

theorem ends_ret (hb : c.upcoming.length ≤ b) (hdepth : 10 * c.upcoming.length ≤ depth) :
    Ends c (ret b) (.ret depth) c.upcoming.length := by
  refine (ends_expect (by simp)).bind fun _ c₁ h₁ => ?_
  apply Ends.get
  split
  · exact (ends_expr (by omega) (by omega)).bind fun _ c₂ h₂ => .pure (by omega)
  · exact .pure h₁

theorem ends_assign (hb : c.upcoming.length ≤ b) (hdepth : 10 * c.upcoming.length ≤ depth) :
    Ends c (assign b) (.assign depth) c.upcoming.length := by
  refine ends_takeName.bind fun _ c₁ h₁ => ?_
  refine (ends_expect (by simp)).bind fun _ c₂ h₂ => ?_
  exact (ends_expr (by omega) (by omega)).bind fun _ c₃ h₃ => .pure (by omega)

variable {body : Parser (List Stmt)}
  (hbody : ∀ c depth, c.upcoming.length < b → 10 * c.upcoming.length + 3 ≤ depth →
    Ends c body (.block depth) (c.upcoming.length + 1))

include hbody

theorem ends_loop (hb : c.upcoming.length ≤ b) (hdepth : 10 * c.upcoming.length + 1 ≤ depth) :
    Ends c (loop body b) (.loop depth) c.upcoming.length := by
  obtain ⟨depth, rfl⟩ := Nat.exists_eq_add_one.2 (show 0 < depth by omega)
  rw [Reader.loop]
  refine (ends_expect (by simp)).bind fun _ c₁ h₁ => ?_
  refine (ends_expr (by omega) (by omega)).bind fun _ c₂ h₂ => ?_
  refine (ends_expect (by simp)).bind fun _ c₃ h₃ => ?_
  refine (hbody c₃ depth (by omega) (by omega)).bind fun _ c₄ h₄ => ?_
  exact (ends_expect (by simp)).bind fun _ c₅ h₅ => .pure (by omega)

theorem ends_cond (hb : c.upcoming.length ≤ b) (hdepth : 10 * c.upcoming.length + 1 ≤ depth) :
    Ends c (cond body b) (.cond depth) c.upcoming.length := by
  obtain ⟨depth, rfl⟩ := Nat.exists_eq_add_one.2 (show 0 < depth by omega)
  rw [Reader.cond]
  refine (ends_expect (by simp)).bind fun _ c₁ h₁ => ?_
  refine (ends_expr (by omega) (by omega)).bind fun test c₂ h₂ => ?_
  refine (ends_expect (by simp)).bind fun _ c₃ h₃ => ?_
  refine (hbody c₃ depth (by omega) (by omega)).bind fun thenBlock c₄ h₄ => ?_
  have hclose : ∀ {c₅ : Cursor} {elseBlock : List Stmt}, c₅.upcoming.length < c.upcoming.length →
      Ends c₅ (expect .endKw >>= fun _ => pure (Stmt.cond test thenBlock elseBlock))
        (.of (expect .endKw) >>= fun _ => pure (Stmt.cond test thenBlock elseBlock)) c.upcoming.length := fun h₅ =>
    (ends_expect (by simp)).bind fun _ c₆ h₆ => .pure (by omega)
  apply Ends.get
  split
  · exact hclose (by omega)
  · refine (ends_expect (by simp)).bind fun _ c₅ h₅ => ?_
    exact (hbody c₅ depth (by omega) (by omega)).bind fun _ c₆ h₆ => hclose (by omega)

theorem ends_function (hb : c.upcoming.length ≤ b) (hdepth : 10 * c.upcoming.length + 1 ≤ depth) :
    Ends c (function body b) (.function depth) c.upcoming.length := by
  obtain ⟨depth, rfl⟩ := Nat.exists_eq_add_one.2 (show 0 < depth by omega)
  rw [Reader.function]
  refine (ends_expect (by simp)).bind fun _ c₁ h₁ => ?_
  refine ends_takeName.bind fun _ c₂ h₂ => ?_
  refine (ends_expect (by simp)).bind fun _ c₃ h₃ => ?_
  refine (ends_params (by omega) (by omega)).bind fun _ c₄ h₄ => ?_
  refine (ends_expect (by simp)).bind fun _ c₅ h₅ => ?_
  refine (hbody c₅ depth (by omega) (by omega)).bind fun _ c₆ h₆ => ?_
  exact (ends_expect (by simp)).bind fun _ c₇ h₇ => .pure (by omega)

theorem ends_statement (hb : c.upcoming.length ≤ b) (hdepth : 10 * c.upcoming.length + 2 ≤ depth) :
    Ends c (statement body b) (.statement depth) c.upcoming.length := by
  obtain ⟨depth, rfl⟩ := Nat.exists_eq_add_one.2 (show 0 < depth by omega)
  rw [Reader.statement]
  apply Ends.get
  cases htag : c.tag with
  | ifKw => exact ends_cond hbody hb (by omega)
  | whileKw => exact ends_loop hbody hb (by omega)
  | returnKw => exact ends_ret hb (by omega)
  | breakKw => exact (ends_take (by simp [htag])).bind fun _ c₁ h₁ => .pure h₁
  | functionKw => exact ends_function hbody hb (by omega)
  | name =>
      dsimp only
      split
      · exact (ends_callee (fun _ _ => ends_expr) hb (by omega)).bind fun _ c₁ h₁ => .pure h₁
      · exact ends_assign hb (by omega)
  | _ => exact .unexpected

end Statements

theorem ends_block {b depth : Nat} {c : Cursor} (hb : c.upcoming.length < b)
    (hdepth : 10 * c.upcoming.length + 3 ≤ depth) :
    Ends c (block b) (.block depth) (c.upcoming.length + 1) := by
  induction b generalizing c depth with
  | zero => omega
  | succ b ih =>
      obtain ⟨depth, rfl⟩ := Nat.exists_eq_add_one.2 (show 0 < depth by omega)
      rw [Reader.block]
      apply Ends.get
      split
      · refine (ends_statement (fun _ _ => ih) (by omega) (by omega)).bind fun _ c₁ h₁ => ?_
        exact (ih (by omega) (by omega)).bind fun _ c₂ h₂ => .pure (by omega)
      · exact .pure (Nat.lt_succ_self _)

/-! ## Entry points -/

section Entries

variable {c : Cursor} {depth : Nat}

theorem ends_expression (hdepth : 10 * c.upcoming.length + 10 ≤ depth) :
    Ends c expression (.atLevel depth .whole) c.upcoming.length := by
  rw [expression]
  apply Ends.bounded
  exact ends_expr (Nat.lt_succ_self _) hdepth

theorem ends_expect_eof : Ends c (expect .eof) (.of (expect .eof)) (c.upcoming.length + 1) := by
  intro _
  refine ⟨rfl, ?_⟩
  rw [expect, get_bind]
  by_cases hc : c.tag = .eof
  · rw [if_pos hc]
    have hstays : take c = .ok c.current c := by
      rw [take, get_bind, Cursor.advance_eq_self hc]
      rfl
    rw [hstays]
    exact ⟨.refl c, Nat.lt_succ_self _⟩
  · rw [if_neg hc]
    exact ⟨.refl c, rfl⟩

theorem ends_program (hdepth : 10 * c.upcoming.length + 3 ≤ depth) :
    Ends c program (.program depth) (c.upcoming.length + 1) := by
  rw [program, Reader.program]
  apply Ends.bounded
  refine (ends_block (Nat.lt_succ_self _) hdepth).bind fun _ c₁ h₁ => ?_
  exact ends_expect_eof.bind fun _ c₂ h₂ => .pure (by omega)

end Entries

end Parser

/-- What can be read at a cursor. -/
inductive Call
  | expression
  | statement
  | program
deriving DecidableEq

namespace Call

/-- What a call gives. -/
abbrev Tree : Call → Type
  | expression => Expr
  | statement => Stmt
  | program => List Stmt

/-- The parser of a call, with the bounds that the tokens after the cursor ask for. -/
def parser : (call : Call) → Parser call.Tree
  | expression => Parser.expression
  | statement => do
    let bound := (← get).upcoming.length
    Parser.statement (Parser.block bound) bound
  | program => Parser.program

/-- The reader of a call. -/
def reader (depth : Nat) : (call : Call) → Reader call.Tree
  | expression => .atLevel depth .whole
  | statement => .statement depth
  | program => .program depth

/-- The cursor that a call leaves, whether or not it fails. -/
def leave (call : Call) (c : Cursor) : Cursor :=
  match call.parser c with
  | .ok _ c' => c'
  | .error _ c' => c'

/-- The cursor after calls from left to right. -/
def after (calls : List Call) (c : Cursor) : Cursor :=
  calls.foldl (fun c call => call.leave c) c

variable {c : Cursor}

theorem ends (call : Call) {depth : Nat} (hdepth : 10 * (c.upcoming.length + 1) ≤ depth) :
    Parser.Ends c call.parser (call.reader depth)
      (if call = .program then c.upcoming.length + 1 else c.upcoming.length) := by
  cases call with
  | expression => exact Parser.ends_expression (by omega)
  | statement =>
      rw [parser, reader]
      apply Parser.Ends.bounded
      exact Parser.ends_statement (fun _ _ => Parser.ends_block) (Nat.le_refl _) (by omega)
  | program => exact Parser.ends_program (by omega)

theorem reaches_leave (call : Call) (hc : c.HasEnd) : c.Reaches (call.leave c) := by
  have hresult := (call.ends (Nat.le_refl _) hc).2
  rw [leave]
  cases h : call.parser c with
  | ok _ c' =>
      rw [h] at hresult
      exact hresult.1
  | error _ c' =>
      rw [h] at hresult
      exact hresult.1

theorem reaches_after (calls : List Call) (hc : c.HasEnd) : c.Reaches (after calls c) := by
  induction calls generalizing c with
  | nil => exact .refl c
  | cons call calls ih =>
      have hleave := call.reaches_leave hc
      exact hleave.trans (ih (hc.of_reaches hleave))

/-- Whatever calls were made before, a call ends with a tree or an error, and no more than ten calls are nested for each
token that is left. The cursor stands at a token of the list before and after it, at the first end mark or before that, and
it does not move back. An expression or a statement that is read moves it forward, and an error leaves it at the token that
is reported. -/
theorem ends_within_tokens (tokens : List Token) (calls : List Call) (call : Call) :
    ∃ c k, c = after calls (.ofTokens tokens) ∧ c.StandsAt (Cursor.ofTokens tokens).toList k
      ∧ ((∃ tree c' k', call.parser c = .ok tree c'
          ∧ (∀ depth, 10 * (c.upcoming.length + 1) ≤ depth → call.reader depth c = some (.ok tree, c'))
          ∧ c'.StandsAt (Cursor.ofTokens tokens).toList k' ∧ k ≤ k' ∧ (call ≠ .program → k < k'))
        ∨ ∃ e c' k', call.parser c = .error e c'
          ∧ (∀ depth, 10 * (c.upcoming.length + 1) ≤ depth → call.reader depth c = some (.error e, c'))
          ∧ c'.StandsAt (Cursor.ofTokens tokens).toList k' ∧ k ≤ k'
          ∧ (Cursor.ofTokens tokens).toList[k']? = some e.token) := by
  have hstart := Cursor.hasEnd_ofTokens tokens
  have hreached := reaches_after calls hstart
  have hend := hstart.of_reaches hreached
  obtain ⟨k, hk, -⟩ := (Cursor.standsAt_zero (Cursor.ofTokens tokens)).of_reaches hreached
  refine ⟨after calls (.ofTokens tokens), k, rfl, hk, ?_⟩
  generalize after calls (.ofTokens tokens) = c at hend hk
  have hread : ∀ depth, 10 * (c.upcoming.length + 1) ≤ depth → call.reader depth c = Reader.of call.parser c :=
    fun depth hdepth => (call.ends hdepth hend).1
  have hresult := (call.ends (Nat.le_refl _) hend).2
  simp only [Reader.of] at hread
  cases h : call.parser c with
  | ok tree c' =>
      rw [h] at hread hresult
      obtain ⟨hreaches, hlength⟩ := hresult
      obtain ⟨k', hk', hmoved, hle⟩ := hk.of_reaches hreaches
      refine .inl ⟨tree, c', k', rfl, hread, hk', hle, ?_⟩
      intro hcall
      rw [if_neg hcall] at hlength
      omega
  | error e c' =>
      rw [h] at hread hresult
      obtain ⟨hreaches, htoken⟩ := hresult
      obtain ⟨k', hk', -, hle⟩ := hk.of_reaches hreaches
      exact .inr ⟨e, c', k', rfl, hread, hk', hle, htoken ▸ hk'.token⟩

end Call

end Scriptlet
