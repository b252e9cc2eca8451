import Mathlib.Tactic
import Scriptlet.Proofs.Bytecode.ImageLaws
import Scriptlet.Proofs.Compilation
import Scriptlet.Proofs.Interpreter.Operands

/-!
# How the operands of a source text are read

A name is read as a variable unless one of its characters is stray or its first one is a numeral. A number is read as
the number it denotes unless it has digits beyond ASCII or is too large. Otherwise either is read as the string that its
text is.
-/

namespace Scriptlet

open Bytecode (isVariable unquoted? slotNames operandOp idxOf?_of_mem mem_slotNames)
open Interpreter (unquoted?_of_isVariable isVariable_number unquoted?_number)
open Ir (Code)

/-! ## Operations -/

theorem operandOp_variable {x : String} (hx : isVariable x = true) (slots : List String) :
    operandOp slots x = if x ∈ slots then .pushSlot (slots.idxOf x) else .push .nil := by
  rw [operandOp, unquoted?_of_isVariable hx]
  dsimp only
  rw [if_pos hx]
  split_ifs with hmem
  · rw [idxOf?_of_mem hmem]
  · rw [List.idxOf?_eq_none_iff.2 hmem]

theorem operandOp_constant {x : String} (hquoted : unquoted? x = none) (hx : isVariable x = false)
    (slots : List String) : operandOp slots x = .push (.ofLiteral x) := by
  rw [operandOp, hquoted]
  dsimp only
  rw [if_neg (by rw [hx]; decide)]

/-! ## Names -/

/-- Names that are read as variables: no character is stray, and the first one is no numeral. -/
def VariableName (x : String) : Prop :=
  (∀ c ∈ x.toList, Text.isStray c = false) ∧ ∀ c ∈ x.toList.head?, Text.isNumeral c = false

namespace Token.Scanned

variable {t : Token}

theorem isVariable_iff (h : t.Scanned) (htag : t.tag = .name) : isVariable t.text = true ↔ VariableName t.text := by
  have hne : ∀ word, Value.ofLiteral word ≠ .string word → t.text ≠ word := by
    rintro _ hword rfl
    exact hword (h.ofLiteral htag)
  have hkeyword : (t.text != "true" && t.text != "false" && t.text != "nil") = true := by
    simp only [Bool.and_eq_true, bne_iff_ne]
    exact ⟨⟨hne "true" (by decide), hne "false" (by decide)⟩, hne "nil" (by decide)⟩
  obtain ⟨c, cs, htext, hstart, hrest⟩ := h.exists_word htag
  have htail : (cs.all fun c => c == '_' || Text.isAlphanumeric c) = cs.all fun c => !Text.isStray c := by
    rw [Bool.eq_iff_iff, List.all_eq_true, List.all_eq_true]
    exact forall₂_congr fun c hc => by rw [Text.narrow_of_isWord (hrest c hc)]
  rw [isVariable, Bool.and_assoc, Bool.and_assoc, ← Bool.and_assoc (_ != _), hkeyword, Bool.and_true, htext,
    String.toList_ofList]
  dsimp only
  rw [Text.narrow_of_isWordStart hstart, htail, VariableName, String.toList_ofList, List.forall_mem_cons]
  simp only [Bool.and_eq_true, Bool.not_eq_true', List.all_eq_true, List.head?_cons, Option.mem_some, forall_eq']
  exact and_right_comm

theorem unquoted?_eq_none (h : t.Scanned) (htag : t.tag = .name) : unquoted? t.text = none := by
  obtain ⟨c, cs, htext, hstart, -⟩ := h.exists_word htag
  rw [htext, unquoted?, String.toList_ofList]
  split
  · rename_i hquote
    cases hquote
    exact absurd hstart (by decide)
  · rfl

end Token.Scanned

/-- A name is read as a variable exactly if no character of it is stray and the first one is no numeral. A variable that
the code binds somewhere is read from its slot, and any other is nil. What is not read as a variable is a string. -/
theorem operandOp_name {source : String} {tokens : List Token} (htokens : tokenize source = .ok tokens) {t : Token}
    (ht : t ∈ tokens) (htag : t.tag = .name) (code : Code) :
    (isVariable t.text = true ↔ VariableName t.text)
      ∧ (VariableName t.text →
        ((∃ i ∈ code, i.binds? = some t.text) → ∃ slot, (slotNames code)[slot]? = some t.text
          ∧ operandOp (slotNames code) t.text = .pushSlot slot)
        ∧ ((∀ i ∈ code, i.binds? ≠ some t.text) → operandOp (slotNames code) t.text = .push .nil))
      ∧ (¬ VariableName t.text → operandOp (slotNames code) t.text = .push (.string t.text)) := by
  have hscanned := scanned_of_tokenize htokens t ht
  have hiff := hscanned.isVariable_iff htag
  refine ⟨hiff, ?_, ?_⟩
  · intro hname
    have hop := operandOp_variable (hiff.2 hname) (slotNames code)
    constructor
    · rintro ⟨i, hi, hbinds⟩
      have hmem := mem_slotNames hi hbinds
      rw [if_pos hmem] at hop
      exact ⟨_, List.getElem?_idxOf hmem, hop⟩
    · intro hunbound
      rw [hop, if_neg]
      rw [slotNames, List.mem_eraseDups, List.mem_filterMap]
      rintro ⟨i, hi, hbinds⟩
      exact hunbound i hi hbinds
  · intro hname
    rw [operandOp_constant (hscanned.unquoted?_eq_none htag) (by simpa using mt hiff.1 hname),
      hscanned.ofLiteral htag]

/-- A name made of a letter and a digit beyond ASCII is read from its slot. -/
theorem operandOp_name_beyondAscii :
    ∃ source tokens t code, source = "x = 1 \u00e4\u0663 = 2 return \u00e4\u0663" ∧ tokenize source = .ok tokens
      ∧ t ∈ tokens ∧ t.tag = .name ∧ t.text = "\u00e4\u0663" ∧ codeOfSource source = .ok code
      ∧ ∃ slot, (slotNames code)[slot]? = some t.text ∧ operandOp (slotNames code) t.text = .pushSlot slot := by
  obtain ⟨source, hsource⟩ : ∃ source, source = "x = 1 \u00e4\u0663 = 2 return \u00e4\u0663" := ⟨_, rfl⟩
  have htokens : (tokenize source).toOption.any (fun tokens =>
      tokens.any fun t => t.tag = .name ∧ t.text = "\u00e4\u0663" ∧ isVariable t.text) = true := by
    rw [hsource]
    decide +kernel
  have hcode : (codeOfSource source).toOption.any (fun code =>
      code.any fun i => i.binds? = some "\u00e4\u0663") = true := by
    rw [hsource]
    decide +kernel
  obtain ⟨tokens, htokens, hname⟩ := exists_ok_of_any htokens
  obtain ⟨code, hcode, hbinds⟩ := exists_ok_of_any hcode
  simp only [List.any_eq_true, decide_eq_true_eq] at hname hbinds
  obtain ⟨t, ht, htag, htext, hvariable⟩ := hname
  obtain ⟨hiff, hread, -⟩ := operandOp_name htokens ht htag code
  exact ⟨source, tokens, t, code, hsource, htokens, ht, htag, htext, hcode,
    (hread (hiff.1 hvariable)).1 (by rwa [htext])⟩

/-- A name with a combining mark is assigned a number, but it is read as a string. -/
theorem marked_name_is_no_variable :
    ∃ source tokens t ops, source = "x\u0301 = 1 return x\u0301" ∧ tokenize source = .ok tokens ∧ t ∈ tokens
      ∧ t.tag = .name ∧ isVariable t.text = false ∧ opsOfSource source = .ok ops ∧ .push (.string t.text) ∈ ops := by
  obtain ⟨source, hsource⟩ : ∃ source, source = "x\u0301 = 1 return x\u0301" := ⟨_, rfl⟩
  have htokens : (tokenize source).toOption.any (fun tokens =>
      tokens.any fun t => t.tag = .name ∧ t.text = "x\u0301" ∧ isVariable t.text = false) = true := by
    rw [hsource]
    decide +kernel
  have hops : (opsOfSource source).toOption.any (fun ops => ops.any (· = .push (.string "x\u0301"))) = true := by
    rw [hsource]
    decide +kernel
  obtain ⟨tokens, htokens, hname⟩ := exists_ok_of_any htokens
  obtain ⟨ops, hops, hread⟩ := exists_ok_of_any hops
  simp only [List.any_eq_true, decide_eq_true_eq] at hname hread
  obtain ⟨t, ht, htag, htext, hvariable⟩ := hname
  obtain ⟨op, hop, rfl⟩ := hread
  rw [← htext] at hop
  exact ⟨source, tokens, t, ops, hsource, htokens, ht, htag, hvariable, hops, hop⟩

/-! ## Numbers -/

/-- A decimal that is not read as a number is the literal of the string that it is. -/
theorem Number.DecimalText.ofLiteral {cs : List Char} (h : DecimalText cs) :
    Value.ofLiteral (String.ofList cs) = if InRange cs then .number (ofDecimal cs) else .string (String.ofList cs) := by
  have hletter : ∀ c : Char, c = 'n' ∨ c = 't' ∨ c = 'f' → c ∉ cs := by
    intro c hc hmem
    rcases h.figure_or_point c hmem with (hdigit | hlarge) | rfl
    · rcases hc with rfl | rfl | rfl <;> cases hdigit
    · rcases hc with rfl | rfl | rfl <;> exact absurd hlarge (by decide)
    · revert hc
      decide
  have hnil : String.ofList cs ≠ "nil" := fun heq =>
    hletter 'n' (.inl rfl) (by rw [← String.toList_ofList (l := cs), heq]; decide)
  have htrue : String.ofList cs ≠ "true" := fun heq =>
    hletter 't' (.inr (.inl rfl)) (by rw [← String.toList_ofList (l := cs), heq]; decide)
  have hfalse : String.ofList cs ≠ "false" := fun heq =>
    hletter 'f' (.inr (.inr rfl)) (by rw [← String.toList_ofList (l := cs), heq]; decide)
  rw [Value.ofLiteral, if_neg hnil, if_neg htrue, if_neg hfalse, h.parseFinite?_eq]
  by_cases hrange : InRange cs
  · rw [if_pos hrange, if_pos hrange]
  · rw [if_neg hrange, if_neg hrange]

theorem Number.DecimalText.finite_ofDecimal {cs : List Char} (h : DecimalText cs) (hrange : InRange cs) :
    finite (ofDecimal cs) = true := by
  have hparse := h.parseFinite?_eq
  rw [if_pos hrange] at hparse
  exact finite_of_parseFinite? hparse

theorem Token.Scanned.operandOp_eq {t : Token} (h : t.Scanned) (htag : t.tag = .number) (slots : List String) :
    operandOp slots t.text = .push (.ofLiteral t.text) := by
  have htext := h.literalText (show t.tag = LiteralKind.number.tag from htag)
  generalize t.text = x at htext ⊢
  cases htext with
  | number hc => exact operandOp_constant (unquoted?_number hc _) (isVariable_number hc _) slots

namespace Image

/-- An operation that has an image, and that comes back from every image as it is, at the place where it was. -/
def Kept (op : Op) : Prop :=
  (∃ bytes, encode [op] = .ok bytes)
    ∧ ∀ ops bytes, (∀ op ∈ ops, Storable op) → encode ops = .ok bytes →
      ∃ decoded, decode bytes = .ok decoded ∧ ∀ k : Nat, ops[k]? = some op → decoded[k]? = some op

theorem settled_number {x : Number} (hx : x.finite = true) : Settled (.push (.number x)) := by
  refine ⟨?_, trivial, by rw [Op.reread, Op.mapLiteral, Value.reread_number hx]⟩
  rintro text ⟨⟩
  exact (Number.utf8ByteSize_text hx).trans (by decide)

theorem Settled.kept {op : Op} (h : Settled op) : Kept op := by
  constructor
  · exact exists_encode_iff.2 (by simpa using h.fits)
  · intro ops bytes hops hbytes
    refine ⟨_, decode_encode hops hbytes, fun k hk => ?_⟩
    rw [List.getElem?_map, hk, Option.map_some, h.reread]

end Image

/-- A number is read as the number nearest to its value, and images keep it, exactly if its digits are ASCII and its
value is not too large. Any other number is read as a string. -/
theorem operandOp_number {source : String} {tokens : List Token} (htokens : tokenize source = .ok tokens) {t : Token}
    (ht : t ∈ tokens) (htag : t.tag = .number) (slots : List String) :
    (Number.InRange t.text.toList → operandOp slots t.text = .push (.number (.ofDecimal t.text.toList))
        ∧ Image.Kept (.push (.number (.ofDecimal t.text.toList))))
      ∧ (¬ Number.InRange t.text.toList → operandOp slots t.text = .push (.string t.text)) := by
  have hscanned := scanned_of_tokenize htokens t ht
  have hdecimal := hscanned.decimalText htag
  have hvalue := hdecimal.ofLiteral
  rw [String.ofList_toList] at hvalue
  rw [hscanned.operandOp_eq htag, hvalue]
  constructor
  · intro hrange
    rw [if_pos hrange]
    exact ⟨rfl, (Image.settled_number (hdecimal.finite_ofDecimal hrange)).kept⟩
  · intro hrange
    rw [if_neg hrange]

/-- A number may begin with its point. -/
theorem operandOp_number_point :
    ∃ source tokens t, source = "return .5" ∧ tokenize source = .ok tokens ∧ t ∈ tokens ∧ t.tag = .number
      ∧ Number.InRange t.text.toList ∧ operandOp [] t.text = .push (.number (.ofDecimal t.text.toList))
      ∧ Image.Kept (.push (.number (.ofDecimal t.text.toList))) := by
  obtain ⟨source, hsource⟩ : ∃ source, source = "return .5" := ⟨_, rfl⟩
  have htokens : (tokenize source).toOption.any (fun tokens =>
      tokens.any fun t => t.tag = .number ∧ Number.InRange t.text.toList) = true := by
    rw [hsource]
    decide +kernel
  obtain ⟨tokens, htokens, hnumber⟩ := exists_ok_of_any htokens
  simp only [List.any_eq_true, decide_eq_true_eq] at hnumber
  obtain ⟨t, ht, htag, hrange⟩ := hnumber
  exact ⟨source, tokens, t, hsource, htokens, ht, htag, hrange, (operandOp_number htokens ht htag []).1 hrange⟩

/-- A number in the digits of another script is read as a string. -/
theorem foreign_digit_is_no_number :
    ∃ source tokens t ops, source = "return \u0663" ∧ tokenize source = .ok tokens ∧ t ∈ tokens ∧ t.tag = .number
      ∧ opsOfSource source = .ok ops ∧ .push (.string t.text) ∈ ops := by
  obtain ⟨source, hsource⟩ : ∃ source, source = "return \u0663" := ⟨_, rfl⟩
  have htokens : (tokenize source).toOption.any (fun tokens =>
      tokens.any fun t => t.tag = .number ∧ t.text = "\u0663") = true := by
    rw [hsource]
    decide +kernel
  have hops : (opsOfSource source).toOption.any (fun ops => ops.any (· = .push (.string "\u0663"))) = true := by
    rw [hsource]
    decide +kernel
  obtain ⟨tokens, htokens, hnumber⟩ := exists_ok_of_any htokens
  obtain ⟨ops, hops, hread⟩ := exists_ok_of_any hops
  simp only [List.any_eq_true, decide_eq_true_eq] at hnumber hread
  obtain ⟨t, ht, htag, htext⟩ := hnumber
  obtain ⟨op, hop, rfl⟩ := hread
  rw [← htext] at hop
  exact ⟨source, tokens, t, ops, hsource, htokens, ht, htag, hops, hop⟩

end Scriptlet
