import Mathlib.Tactic
import Scriptlet.Bytecode.Listing
import Scriptlet.Proofs.Compilation
import Scriptlet.Proofs.Ir.LinearForm

/-!
# Marks

A listing marks the operations that something goes to, which it learns from the literals that are pushed before a jump, a
branch or a call. In the operations of a source text this is never wrong: where a branch stands, no parameter is pushed,
so the first literal that is pending is its address, and the literals of jumps and calls are the latest anyway.
-/

namespace Scriptlet.Bytecode

open Ir (Code Instruction CallSite scan)

/-! ## Pending literals -/

/-- The address below `size` that a literal stands for. -/
def mark? (size : Nat) (v : Value) : Option Nat :=
  v.toIndex?.filter (· < size)

/-- What is marked for a target, if there is one. -/
def marksOf (size : Nat) (address : Nat → Nat) (target : Option Nat) : List Nat :=
  (target.bind fun t => mark? size (.ofIndex (address t))).toList

section Pending

variable {size : Nat} {address : Nat → Nat} {slots : List String} {pending : List Value} {ops : List Op}

theorem marksOf_none : marksOf size address none = [] :=
  rfl

theorem marksOf_some (t : Nat) : marksOf size address (some t) = (mark? size (.ofIndex (address t))).toList := by
  rw [marksOf, Option.bind_some]

theorem targetsFrom_push (v : Value) :
    targetsFrom size pending (.push v :: ops) = targetsFrom size (v :: pending) ops := by
  rw [targetsFrom]

theorem targetsFrom_cons {op : Op} (hop : ∀ v, op ≠ .push v) :
    targetsFrom size pending (op :: ops) = ((addressLiteral? pending op).bind (mark? size)).toList
      ++ targetsFrom size (if usesUp op then [] else pending) ops := by
  have hmark : (addressLiteral? pending op).bind (mark? size)
      = ((addressLiteral? pending op).bind Value.toIndex?).filter (· < size) := by
    cases addressLiteral? pending op <;> rfl
  rw [hmark]
  cases op with
  | push v => exact absurd rfl (hop v)
  | _ => rfl

theorem targetsFrom_jump (v : Value) :
    targetsFrom size (v :: pending) (.jump :: ops) = (mark? size v).toList ++ targetsFrom size [] ops := by
  rw [targetsFrom_cons (by simp)]
  rfl

theorem targetsFrom_branch (v : Value) :
    targetsFrom size (pending ++ [v]) (.branch :: ops) = (mark? size v).toList ++ targetsFrom size [] ops := by
  rw [targetsFrom_cons (by simp), addressLiteral?, List.getLast?_concat]
  rfl

theorem targetsFrom_call (argc v : Value) :
    targetsFrom size (argc :: v :: pending) (.call :: ops) = (mark? size v).toList ++ targetsFrom size [] ops := by
  rw [targetsFrom_cons (by simp)]
  rfl

theorem targetsFrom_plain {op : Op} (hpush : ∀ v, op ≠ .push v) (hnone : addressLiteral? pending op = none) :
    targetsFrom size pending (op :: ops) = targetsFrom size (if usesUp op then [] else pending) ops := by
  rw [targetsFrom_cons hpush, hnone]
  rfl

theorem targetsFrom_store : targetsFrom size pending (.store :: ops) = targetsFrom size [] ops :=
  targetsFrom_plain (by simp) rfl

theorem targetsFrom_pop : targetsFrom size pending (.pop :: ops) = targetsFrom size [] ops :=
  targetsFrom_plain (by simp) rfl

theorem targetsFrom_unary (op : UnaryOp) :
    targetsFrom size pending (.unary op :: ops) = targetsFrom size pending ops :=
  targetsFrom_plain (by simp) rfl

theorem targetsFrom_binary (op : BinaryOp) :
    targetsFrom size pending (.binary op :: ops) = targetsFrom size pending ops :=
  targetsFrom_plain (by simp) rfl

/-- An operand leaves the literals as they are or adds one to them. -/
theorem targetsFrom_operandOp (size : Nat) (slots : List String) (x : String) (pending : List Value) :
    ∃ latest, ∀ ops, targetsFrom size pending (operandOp slots x :: ops)
      = targetsFrom size (latest ++ pending) ops := by
  have hpush : ∀ v, ∃ latest, ∀ ops,
      targetsFrom size pending (.push v :: ops) = targetsFrom size (latest ++ pending) ops :=
    fun v => ⟨[v], fun ops => targetsFrom_push v⟩
  rw [operandOp]
  split
  · exact hpush _
  · split
    · split
      · exact ⟨[], fun ops => targetsFrom_plain (by simp) rfl⟩
      · exact hpush _
    · exact hpush _

theorem targetsFrom_callOps (site : CallSite) :
    targetsFrom size pending (callOps address site ++ ops)
      = marksOf size address site.target ++ targetsFrom size [] ops := by
  rw [callOps]
  cases site.target with
  | none =>
      simp only [List.cons_append, List.nil_append, targetsFrom_push, marksOf_none]
      exact targetsFrom_plain (by simp) rfl
  | some t =>
      simp only [List.cons_append, List.nil_append, targetsFrom_push]
      rw [marksOf_some]
      exact targetsFrom_call _ _

theorem pushed_eq_nil {i : Instruction} (hsite : i.callSite? = none) (hparam : ∀ x name, i ≠ .param x name)
    {pushed pushed' : List (Option String)} (h : i.settle pushed = some pushed') : pushed = [] := by
  rw [Ir.settle_other hsite hparam] at h
  by_contra hne
  rw [if_neg hne] at h
  cases h

/-- A listing marks the target of an instruction. After it no literals are pending, unless parameters are pushed. -/
theorem targetsFrom_instructionOps {i : Instruction} {pushed pushed' : List (Option String)}
    (hsettle : i.settle pushed = some pushed') (hpending : pushed = [] → pending = []) :
    ∃ pending', (pushed' = [] → pending' = []) ∧ ∀ ops,
      targetsFrom size pending (instructionOps slots address i ++ ops)
        = marksOf size address i.target? ++ targetsFrom size pending' ops := by
  have hoperand := targetsFrom_operandOp size slots
  cases i with
  | goto t =>
      refine ⟨[], fun _ => rfl, fun ops => ?_⟩
      rw [instructionOps, Instruction.target?, marksOf_some, List.cons_append, List.cons_append, targetsFrom_push,
        targetsFrom_jump, List.nil_append]
  | branch x t =>
      -- no parameter is pushed, so the address is the first literal
      have hpushed := pushed_eq_nil rfl (by simp) hsettle
      obtain ⟨latest, hlatest⟩ := hoperand x [.ofIndex (address t)]
      refine ⟨[], fun _ => rfl, fun ops => ?_⟩
      rw [instructionOps, Instruction.target?, marksOf_some, hpending hpushed, List.cons_append, List.cons_append,
        List.cons_append, targetsFrom_push, hlatest, targetsFrom_branch, List.nil_append]
  | assign name rhs =>
      refine ⟨[], fun _ => rfl, fun ops => ?_⟩
      cases rhs with
      | single x =>
          obtain ⟨latest, hlatest⟩ := hoperand x (.ofIndex (slots.idxOf name) :: pending)
          simp only [instructionOps, slotOp, List.cons_append, List.nil_append, targetsFrom_push, hlatest,
            targetsFrom_store, Instruction.target?, marksOf_none]
      | unary op x =>
          obtain ⟨latest, hlatest⟩ := hoperand x (.ofIndex (slots.idxOf name) :: pending)
          simp only [instructionOps, slotOp, List.cons_append, List.nil_append, targetsFrom_push, hlatest,
            targetsFrom_unary, targetsFrom_store, Instruction.target?, marksOf_none]
      | binary op x y =>
          obtain ⟨latest, hlatest⟩ := hoperand y (.ofIndex (slots.idxOf name) :: pending)
          obtain ⟨latest', hlatest'⟩ := hoperand x (latest ++ .ofIndex (slots.idxOf name) :: pending)
          simp only [instructionOps, slotOp, List.cons_append, List.nil_append, targetsFrom_push, hlatest, hlatest',
            targetsFrom_binary, targetsFrom_store, Instruction.target?, marksOf_none]
      | call site =>
          simp only [instructionOps, slotOp, List.cons_append, List.nil_append, List.append_assoc, targetsFrom_push,
            targetsFrom_callOps, targetsFrom_store, Instruction.target?]
  | ret x =>
      obtain ⟨latest, hlatest⟩ := hoperand x pending
      refine ⟨[], fun _ => rfl, fun ops => ?_⟩
      simp only [instructionOps, List.cons_append, List.nil_append, hlatest]
      exact targetsFrom_plain (by simp) rfl
  | param x name =>
      cases hsettle
      cases name with
      | none =>
          obtain ⟨latest, hlatest⟩ := hoperand x (noSlot :: pending)
          refine ⟨latest ++ noSlot :: pending, by simp, fun ops => ?_⟩
          simp only [instructionOps, List.cons_append, List.nil_append, targetsFrom_push, hlatest,
            Instruction.target?, marksOf_none]
      | some name =>
          obtain ⟨latest, hlatest⟩ := hoperand x (.ofIndex (slots.idxOf name) :: pending)
          refine ⟨latest ++ .ofIndex (slots.idxOf name) :: pending, by simp, fun ops => ?_⟩
          simp only [instructionOps, slotOp, List.cons_append, List.nil_append, targetsFrom_push, hlatest,
            Instruction.target?, marksOf_none]
  | call site =>
      refine ⟨[], fun _ => rfl, fun ops => ?_⟩
      simp only [instructionOps, List.cons_append, List.nil_append, List.append_assoc, targetsFrom_push,
        targetsFrom_callOps, targetsFrom_pop, Instruction.target?]
  | stop => exact ⟨[], fun _ => rfl, fun ops => targetsFrom_plain (by simp) rfl⟩
  | blank =>
      exact ⟨pending, fun _ => hpending (pushed_eq_nil rfl (by simp) hsettle), fun ops => rfl⟩

theorem targetsFrom_code {code : Code} {pushed pushed' : List (Option String)} (hscan : scan pushed code = some pushed')
    (hpending : pushed = [] → pending = []) :
    targetsFrom size pending (code.flatMap (instructionOps slots address))
      = code.flatMap fun i => marksOf size address i.target? := by
  induction code generalizing pushed pending with
  | nil => rfl
  | cons i code ih =>
      obtain ⟨between, hsettle, hrest⟩ := @Ir.exists_scan_of_append _ _ [i] _ hscan
      rw [Ir.scan_singleton] at hsettle
      obtain ⟨pending', hpending', hops⟩ := targetsFrom_instructionOps hsettle hpending
      rw [List.flatMap_cons, List.flatMap_cons, hops, ih hrest hpending']

end Pending

/-! ## Lines of listings -/

theorem lineFeed_not_mem_toDigits {base : Nat} (hbase : 1 < base) (n : Nat) : '\n' ∉ Nat.toDigits base n := by
  induction n using Nat.strongRecOn with
  | _ n ih =>
      rw [Nat.toDigits_eq_if hbase]
      split
      case isTrue => simp
      case isFalse hlarge =>
        have hless : n / base < n := Nat.div_lt_self (by omega) hbase
        simp [ih _ hless]

theorem lineFeed_not_mem_quotedChar (c : Char) : '\n' ∉ Text.quotedChar c := by
  have hescape : '\n' ∉ Text.codeEscape c := by
    simp [Text.codeEscape, lineFeed_not_mem_toDigits]
  grind [Text.quotedChar]

theorem lineFeed_not_mem_quoted (s : String) : '\n' ∉ (Text.quoted s).toList := by
  simp [Text.quoted, lineFeed_not_mem_quotedChar]

theorem lineFeed_not_mem_positional (d : Number.Decimal) : '\n' ∉ d.positional := by
  have hdigits : '\n' ∉ Nat.toDigits 10 d.coefficient := lineFeed_not_mem_toDigits (by decide) _
  have hpadded : ∀ k, '\n' ∉ List.replicate k '0' ++ Nat.toDigits 10 d.coefficient := by
    intro k
    simp [hdigits]
  rw [Number.Decimal.positional]
  split
  · simp [hdigits]
  · simp only [List.mem_append, List.mem_cons, not_or]
    exact ⟨fun h => hpadded _ (List.mem_of_mem_take h), by decide, fun h => hpadded _ (List.mem_of_mem_drop h)⟩

theorem lineFeed_not_mem_text (x : Number) : '\n' ∉ (Number.text x).toList := by
  have hmagnitude : '\n' ∉ Number.magnitudeText (Number.rank x) := by
    rw [Number.magnitudeText]
    split
    · decide
    · exact lineFeed_not_mem_positional _
  rw [Number.text]
  split
  · decide
  · split_ifs <;> simp [hmagnitude]

theorem lineFeed_not_mem_mnemonic (op : Op) : '\n' ∉ op.mnemonic.toList := by
  cases op with
  | binary op => cases op <;> decide
  | unary op => cases op <;> decide
  | _ => simp [Op.mnemonic]

theorem lineFeed_not_mem_render (op : Op) : '\n' ∉ op.render.toList := by
  have hmnemonic := lineFeed_not_mem_mnemonic op
  cases op with
  | pushSlot slot => simp [Op.render, toString, hmnemonic, lineFeed_not_mem_toDigits]
  | push v =>
      cases v with
      | string s => simp [Op.render, toString, hmnemonic, lineFeed_not_mem_quoted]
      | number x => simp [Op.render, toString, hmnemonic, Value.text, lineFeed_not_mem_text]
      | boolean b => cases b <;> simp [Op.render, toString, hmnemonic, Value.text]
      | nil => simp [Op.render, toString, hmnemonic, Value.text]
  | _ => exact hmnemonic

/-- The line of an operation, without its end. -/
def lineOf (marked : List Nat) (address : Nat) (op : Op) : List Char :=
  (if address ∈ marked then "► ".toList else []) ++ Nat.toDigits 10 address ++ ": ".toList ++ op.render.toList

theorem lineFeed_not_mem_lineOf (marked : List Nat) (address : Nat) (op : Op) : '\n' ∉ lineOf marked address op := by
  rw [lineOf]
  split_ifs <;> simp [lineFeed_not_mem_toDigits, lineFeed_not_mem_render]

theorem toList_join_linesFrom_cons (marked : List Nat) (address : Nat) (op : Op) (ops : List Op) :
    (String.join (linesFrom marked address (op :: ops))).toList
      = lineOf marked address op ++ '\n' :: (String.join (linesFrom marked (address + 1) ops)).toList := by
  by_cases h : address ∈ marked <;> simp [linesFrom, lineOf, toString, h]

theorem splitOn_linesFrom (marked : List Nat) (address : Nat) (ops : List Op) :
    (String.join (linesFrom marked address ops)).toList.splitOn '\n'
      = (ops.mapIdx fun k op => lineOf marked (address + k) op) ++ [[]] := by
  induction ops generalizing address with
  | nil => simp [linesFrom]
  | cons op ops ih =>
      rw [toList_join_linesFrom_cons, List.splitOn_append_cons_self_of_not_mem (lineFeed_not_mem_lineOf _ _ _), ih,
        List.mapIdx_cons]
      simp [Nat.add_assoc, Nat.add_comm 1]

/-- In a text of lines, the line of number `k` begins with a mark. -/
def Marked (text : String) (k : Nat) : Prop :=
  ∃ line, (text.toList.splitOn '\n')[k]? = some line ∧ "► ".toList <+: line

theorem prefix_lineOf_iff {marked : List Nat} {address : Nat} {op : Op} :
    "► ".toList <+: lineOf marked address op ↔ address ∈ marked := by
  rw [lineOf]
  split_ifs with h
  case pos => simp [h]
  case neg =>
    -- without a mark a line starts with a digit
    obtain ⟨digit, digits, hdigits⟩ := List.exists_cons_of_ne_nil (@Nat.toDigits_ne_nil address 10)
    have hdigit : digit.isDigit :=
      Nat.isDigit_of_mem_toDigits (by decide) (by decide) (hdigits ▸ List.mem_cons_self)
    have hmark : digit ≠ '►' := by
      rintro rfl
      exact absurd hdigit (by decide)
    simp [h, hdigits, hmark.symm]

theorem marked_listing_iff {ops : List Op} {k : Nat} : Marked (listing ops) k ↔ k < ops.length ∧ k ∈ targets ops := by
  rw [Marked, listing, splitOn_linesFrom]
  by_cases hk : k < ops.length
  case pos =>
    have hline : ((ops.mapIdx fun k op => lineOf (targets ops) (0 + k) op) ++ [[]])[k]?
        = some (lineOf (targets ops) k ops[k]) := by
      rw [List.getElem?_append_left (by simpa using hk)]
      simp [hk]
    simp only [hline, Option.some.injEq, exists_eq_left', prefix_lineOf_iff, hk, true_and]
  case neg =>
    -- behind the last line end nothing stands
    have hline : ∀ line ∈ ((ops.mapIdx fun k op => lineOf (targets ops) (0 + k) op) ++ [[]])[k]?, line = [] := by
      rw [List.getElem?_append_right (by simpa using hk)]
      simp [List.getElem?_cons]
    constructor
    · rintro ⟨line, hat, hmark⟩
      rw [hline line hat] at hmark
      exact absurd hmark (by decide)
    · rintro ⟨hbelow, -⟩
      exact absurd hbelow hk

/-! ## Targets of code -/

theorem mem_marksOf_iff {size : Nat} {address : Nat → Nat} {target : Option Nat} {a : Nat} :
    a ∈ marksOf size address target
      ↔ ∃ t, target = some t ∧ (Value.ofIndex (address t)).toIndex? = some a ∧ a < size := by
  rw [marksOf, Option.mem_toList, Option.bind_eq_some_iff]
  simp only [mark?, Option.filter_eq_some_iff, decide_eq_true_eq]

theorem mem_targets_operations_iff {code : Code} (hcode : Ir.Balanced code) {a : Nat} :
    a ∈ targets (operations id code) ↔ ∃ i ∈ code, ∃ t, i.target? = some t
      ∧ (Value.ofIndex (address code t)).toIndex? = some a ∧ a < (operations id code).length := by
  generalize hsize : (operations id code).length = size
  rw [targets, hsize, operations_id, targetsFrom_code hcode.settled fun _ => rfl, List.mem_flatMap]
  simp only [mem_marksOf_iff]

/-- What code goes to has the same addresses in its linear form. -/
theorem exists_target_linearize_iff {code linear : Code} (h : code.linearize = .ok linear) (P : Nat → Prop) :
    (∃ i ∈ linear, ∃ t, i.target? = some t ∧ P (address linear t))
      ↔ ∃ i ∈ code, ∃ t, i.target? = some t ∧ P (address code t) := by
  obtain ⟨hlinear, -, -⟩ := Ir.Code.linearize_eq h
  have haddress : ∀ t, address linear (Ir.Code.liveBefore code t) = address code t := by
    intro t
    rw [hlinear, address_linear]
  constructor
  · rintro ⟨kept, hkept, t, ht, hP⟩
    rw [hlinear, List.mem_map] at hkept
    obtain ⟨i, hi, rfl⟩ := hkept
    rw [Instruction.target?_mapTarget, Option.map_eq_some_iff] at ht
    obtain ⟨t, ht, rfl⟩ := ht
    exact ⟨i, List.mem_of_mem_filter hi, t, ht, haddress t ▸ hP⟩
  · rintro ⟨i, hi, t, ht, hP⟩
    have hkept : i.mapTarget (Ir.Code.liveBefore code) ∈ linear := by
      rw [hlinear]
      exact List.mem_map_of_mem (List.mem_filter.2 ⟨hi, Instruction.live_of_target? ht⟩)
    exact ⟨_, hkept, Ir.Code.liveBefore code t, by rw [Instruction.target?_mapTarget, ht, Option.map_some],
      (haddress t).symm ▸ hP⟩

end Scriptlet.Bytecode

namespace Scriptlet

open Bytecode

/-- The listing of the operations of a source text marks the addresses of what the code goes to and no others. Numbers
hold all addresses below `2 ^ 53`; an address beyond is marked where its number says that it is. -/
theorem marked_listing_opsOfSource {source : String} {ops : List Op} (h : opsOfSource source = .ok ops) :
    ∃ code, codeOfSource source = .ok code ∧ lower code = .ok ops
      ∧ (∀ a, Marked (listing ops) a ↔ ∃ i ∈ code, ∃ t, i.target? = some t
        ∧ (Value.ofIndex (address code t)).toIndex? = some a ∧ a < ops.length)
      ∧ (ops.length ≤ 2 ^ 53 → ∀ a, Marked (listing ops) a ↔ ∃ i ∈ code, ∃ t, i.target? = some t ∧ address code t = a) := by
  simp only [opsOfSource, codeOfSource, parseSource, Ir.generate, bind_eq_ok_iff, mapError_eq_ok_iff] at h ⊢
  obtain ⟨linear, ⟨program, ⟨tokens, htokens, hprogram⟩, code, hcode, hlinear⟩, hops⟩ := h
  obtain ⟨hbalanced, -⟩ := balanced_of_tokenize htokens hprogram hcode
  obtain rfl : ops = operations id code := by
    rw [lower_linearize hlinear] at hops
    rw [operations_id, (lower_eq_ok_iff.1 hops).2]
  have hmarked : ∀ a, Marked (listing (operations id code)) a ↔ ∃ i ∈ code, ∃ t, i.target? = some t
      ∧ (Value.ofIndex (address code t)).toIndex? = some a ∧ a < (operations id code).length := by
    intro a
    rw [marked_listing_iff, mem_targets_operations_iff hbalanced]
    grind
  refine ⟨linear, ⟨program, ⟨tokens, htokens, hprogram⟩, code, hcode, hlinear⟩, hops, ?_, ?_⟩
  · intro a
    rw [hmarked]
    exact (exists_target_linearize_iff hlinear fun n => (Value.ofIndex n).toIndex? = some a ∧ _).symm
  · intro hsize a
    rw [hmarked, exists_target_linearize_iff hlinear (· = a)]
    refine exists_congr fun i => and_congr_right fun hi => exists_congr fun t => and_congr_right fun ht => ?_
    have hlt : address code t < (operations id code).length := by
      rw [length_operations]
      exact address_target_lt hbalanced hi ht
    rw [Value.toIndex?_ofIndex (Nat.lt_of_lt_of_le hlt hsize)]
    constructor
    · rintro ⟨⟨⟩, -⟩
      rfl
    · rintro rfl
      exact ⟨rfl, hlt⟩

/-- A loop in a function that calls itself among its own arguments. -/
theorem marked_listing_opsOfSource_recursion :
    ∃ ops code, opsOfSource "function f(n) while n do return f(f()) end end f(1)" = .ok ops ∧ ops.length ≤ 2 ^ 53
      ∧ codeOfSource "function f(n) while n do return f(f()) end end f(1)" = .ok code
      ∧ ∀ a, Marked (listing ops) a ↔ ∃ i ∈ code, ∃ t, i.target? = some t ∧ address code t = a := by
  have hops : (opsOfSource "function f(n) while n do return f(f()) end end f(1)").toOption.any
      (fun ops => ops.length ≤ 2 ^ 53) = true := by
    decide +kernel
  obtain ⟨ops, hops, hsize⟩ := exists_ok_of_any hops
  rw [decide_eq_true_eq] at hsize
  obtain ⟨code, hcode, -, -, hmarked⟩ := marked_listing_opsOfSource hops
  exact ⟨ops, code, hops, hsize, hcode, hmarked hsize⟩

end Scriptlet
