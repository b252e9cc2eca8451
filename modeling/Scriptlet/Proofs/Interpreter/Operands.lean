import Mathlib.Tactic
import Scriptlet.Proofs.Interpreter.Runs
import Scriptlet.Proofs.Token.Lexemes

/-!
# Operands

What operands of generated code are read as: temporaries and names as what they are bound to, literals as their value.
Code changes only temporaries that are new to it, besides the names that it assigns.
-/

namespace Scriptlet.Interpreter

open Bytecode (isVariable unquoted?)
open Ir (temp missing readOperand)

/-! ## Temporaries -/

theorem toList_temp (n : Nat) : (temp n).toList = '_' :: '_' :: 't' :: 'm' :: 'p' :: Nat.toDigits 10 n := by
  rw [temp, String.toList_append, Nat.toString_eq_ofList_toDigits, String.toList_ofList]
  rfl

theorem temp_injective {m n : Nat} (h : temp m = temp n) : m = n := by
  have hlist := congrArg String.toList h
  rw [toList_temp, toList_temp] at hlist
  have hdigits : Nat.toDigits 10 m = Nat.toDigits 10 n := by
    simpa only [List.cons.injEq, true_and] using hlist
  calc
    m = Nat.ofDigitChars 10 (Nat.toDigits 10 m) 0 := Nat.ofDigitChars_ten_toDigits.symm
    _ = Nat.ofDigitChars 10 (Nat.toDigits 10 n) 0 := by rw [hdigits]
    _ = n := Nat.ofDigitChars_ten_toDigits

theorem ne_temp {x : String} (h : x.toList.head? ≠ some '_') (n : Nat) : x ≠ temp n := by
  rintro rfl
  rw [toList_temp] at h
  exact h rfl

theorem isVariable_temp (n : Nat) : isVariable (temp n) = true := by
  have hdigits : (Nat.toDigits 10 n).all (fun c => c == '_' || Text.isAlphanumeric c) = true := by
    rw [List.all_eq_true]
    intro c hc
    have hdigit : c.isDigit = true := Nat.isDigit_of_mem_toDigits (by decide) (by decide) hc
    rw [Text.isAlphanumeric_of_isDigit hdigit, Bool.or_true]
  have hword : Text.isAlphanumeric 't' = true ∧ Text.isAlphanumeric 'm' = true ∧ Text.isAlphanumeric 'p' = true := by
    decide
  rw [isVariable, toList_temp]
  have htrue : "true" ≠ temp n := ne_temp (by decide) n
  have hfalse : "false" ≠ temp n := ne_temp (by decide) n
  have hnil : "nil" ≠ temp n := ne_temp (by decide) n
  simp [hdigits, hword, htrue.symm, hfalse.symm, hnil.symm]

/-! ## Reading -/

theorem unquoted?_of_isVariable {x : String} (h : isVariable x = true) : unquoted? x = none := by
  rw [unquoted?]
  split
  · rename_i rest hx
    rw [isVariable, hx] at h
    have hquote : ('"' == '_' || (Text.isAlphanumeric '"' && !Text.isNumeral '"')) = false := by decide
    simp only [hquote, Bool.false_and] at h
    cases h
  · rfl

theorem readOperand_variable {x : String} (h : isVariable x = true) (env : Env) :
    readOperand Value.reread env x = env x := by
  rw [readOperand, unquoted?_of_isVariable h]
  dsimp only
  rw [if_pos h]

theorem readOperand_temp (env : Env) (n : Nat) : readOperand Value.reread env (temp n) = env (temp n) :=
  readOperand_variable (isVariable_temp n) env

theorem readOperand_congr {env env' : Env} {x : String} (h : env' x = env x) :
    readOperand Value.reread env' x = readOperand Value.reread env x := by
  rw [readOperand, readOperand, h]

theorem readOperand_constant {x : String} (hq : unquoted? x = none) (hx : isVariable x = false) (env : Env) :
    readOperand Value.reread env x = .ofLiteral x := by
  rw [readOperand, hq]
  dsimp only
  rw [if_neg (by rw [hx]; decide), Value.reread_ofLiteral]

theorem readOperand_missing (env : Env) : readOperand Value.reread env missing = .nil := by
  rw [readOperand_constant (by decide) (by decide)]
  rfl

/-- The text of a number does not look like a variable: it begins with a numeral or a point. -/
theorem isVariable_number {c : Char} (hc : Text.isWordDigit c = true ∨ c = '.') (cs : List Char) :
    isVariable (String.ofList (c :: cs)) = false := by
  have hstart : (c == '_' || (Text.isAlphanumeric c && !Text.isNumeral c)) = false := by
    rcases hc with hc | rfl
    · have hdigit : Text.isDigit c = true := (Bool.and_eq_true_iff.1 hc).1
      have hne : c ≠ '_' := by
        rintro rfl
        exact absurd hdigit (by decide)
      simp [hne, Text.isNumeral_of_isDigit hdigit]
    · decide
  simp only [isVariable, String.toList_ofList, hstart, Bool.false_and]

theorem unquoted?_number {c : Char} (hc : Text.isWordDigit c = true ∨ c = '.') (cs : List Char) :
    unquoted? (String.ofList (c :: cs)) = none := by
  have hne : c ≠ '"' := by
    rintro rfl
    revert hc
    decide
  rw [unquoted?, String.toList_ofList]
  split
  · rename_i hquote
    cases hquote
    exact absurd rfl hne
  · rfl

theorem readOperand_quoted (body : List Char) (env : Env) :
    readOperand Value.reread env (String.ofList ('"' :: (body ++ ['"']))) = .ofLiteral (String.ofList body) := by
  have hunquoted : unquoted? (String.ofList ('"' :: (body ++ ['"']))) = some (String.ofList body) := by
    simp [unquoted?]
  rw [readOperand, hunquoted]
  rfl

theorem readOperand_literal {kind : LiteralKind} {x : String} (h : LiteralText kind x) (env : Env) :
    readOperand Value.reread env x = literalValue kind x := by
  cases h with
  | nil => exact readOperand_constant (by decide) (by decide) env
  | boolean b =>
      cases b with
      | true => exact readOperand_constant (by decide) (by decide) env
      | false => exact readOperand_constant (by decide) (by decide) env
  | number hc => exact readOperand_constant (unquoted?_number hc _) (isVariable_number hc _) env
  | string body =>
      rw [readOperand_quoted]
      simp [literalValue]

/-! ## Changes of temporaries -/

/-- An operand is none of the temporaries that are not in use yet. -/
def Stable (temps : Nat) (x : String) : Prop :=
  ∀ n, temps ≤ n → x ≠ temp n

/-- Environments differ in temporaries only that are not in use yet. -/
def Agree (temps : Nat) (env env' : Env) : Prop :=
  ∀ x, Stable temps x → env' x = env x

section Agree

variable {temps temps' : Nat} {env env' env'' : Env} {x : String}

theorem Stable.mono (h : Stable temps x) (hle : temps ≤ temps') : Stable temps' x :=
  fun n hn => h n (hle.trans hn)

theorem stable_temp (n : Nat) : Stable (n + 1) (temp n) := by
  intro m hm heq
  rw [temp_injective heq] at hm
  exact Nat.not_succ_le_self m hm

theorem stable_missing (temps : Nat) : Stable temps missing := by
  intro n _ heq
  have hvariable := isVariable_temp n
  rw [← heq] at hvariable
  exact absurd hvariable (by decide)

theorem Agree.refl (temps : Nat) (env : Env) : Agree temps env env :=
  fun _ _ => rfl

theorem Agree.mono (h : Agree temps' env env') (hle : temps ≤ temps') : Agree temps env env' :=
  fun x hx => h x (hx.mono hle)

theorem Agree.trans (h : Agree temps env env') (h' : Agree temps env' env'') : Agree temps env env'' :=
  fun x hx => (h' x hx).trans (h x hx)

theorem agree_set_temp (temps : Nat) (env : Env) (v : Value) : Agree temps env (env.set (temp temps) v) :=
  fun _ hx => env.set_other v (hx temps le_rfl)

theorem Agree.set (h : Agree temps env env') (name : String) (v : Value) :
    Agree temps (env.set name v) (env'.set name v) := by
  intro x hx
  by_cases hname : x = name
  · subst hname
    rw [Env.set_same, Env.set_same]
  · rw [Env.set_other _ _ hname, Env.set_other _ _ hname, h x hx]

theorem Agree.readOperand_eq (h : Agree temps env env') (hx : Stable temps x) :
    readOperand Value.reread env' x = readOperand Value.reread env x :=
  readOperand_congr (h x hx)

end Agree

end Scriptlet.Interpreter
