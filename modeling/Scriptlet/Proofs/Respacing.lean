import Mathlib.Tactic
import Scriptlet.Proofs.Compilation
import Scriptlet.Proofs.Syntax.Positions
import Scriptlet.Proofs.Token.Separation

/-!
# Texts with canonical spaces

Whatever stands between the tokens of a source text, a single space does as well: the text of its tokens with spaces
between them has the same tokens, but for their places, and the same image.
-/

namespace Scriptlet

/-- The texts of tokens with single spaces between them. -/
def respaced (ts : List Token) : String :=
  " ".intercalate (ts.map Token.text)

theorem tokenize_respaced {source : String} {ts : List Token} (h : tokenize source = .ok ts) :
    ∃ us, tokenize (respaced ts) = .ok us ∧ us.map Token.lexeme = ts.map Token.lexeme := by
  have hlexemes : ∀ l ∈ ts.map Token.lexeme, LexemeText l.1 l.2.toList := by
    rw [List.forall_mem_map]
    exact lexemeText_of_tokenize h
  obtain ⟨us, hus, hsame⟩ := tokenize_intercalate hlexemes
  rw [List.map_map] at hus
  exact ⟨us, hus, hsame⟩

/-- The image of a source text depends on its lexemes only. -/
theorem imageOfSource_of_lexemes {source source' : String} {ts us : List Token} (hts : tokenize source = .ok ts)
    (hus : tokenize source' = .ok us) (hsame : ts.map Token.lexeme = us.map Token.lexeme) {bytes : List UInt8}
    (h : imageOfSource source = .ok bytes) : imageOfSource source' = .ok bytes := by
  simp only [imageOfSource, opsOfSource, codeOfSource, parseSource, bind_eq_ok_iff, mapError_eq_ok_iff] at h ⊢
  obtain ⟨ops, ⟨code, ⟨program, ⟨tokens, htokens, hprogram⟩, hcode⟩, hops⟩, hbytes⟩ := h
  cases hts.symm.trans htokens
  exact ⟨ops, ⟨code, ⟨program, ⟨us, hus, parse_of_lexemes hsame hprogram⟩, hcode⟩, hops⟩, hbytes⟩

/-- Spaces between tokens do not matter. Every token of a source text is a lexeme of its tag, and all lexemes, with
single spaces between them, are read as they are. So a source text can be replaced by the texts of its tokens with single
spaces between them: the tokens are the same but for their places, and so is the image, if there is one. -/
theorem respacing_changes_nothing :
    (∀ source ts, tokenize source = .ok ts → ∀ t ∈ ts, LexemeText t.tag t.text.toList)
      ∧ (∀ lexemes : List (Tag × String), (∀ l ∈ lexemes, LexemeText l.1 l.2.toList) →
        ∃ ts, tokenize (" ".intercalate (lexemes.map Prod.snd)) = .ok ts ∧ ts.map Token.lexeme = lexemes)
      ∧ ∀ source ts, tokenize source = .ok ts →
        (∃ us, tokenize (respaced ts) = .ok us ∧ us.map Token.lexeme = ts.map Token.lexeme)
          ∧ ∀ bytes, imageOfSource source = .ok bytes ↔ imageOfSource (respaced ts) = .ok bytes := by
  refine ⟨fun _ _ => lexemeText_of_tokenize, fun _ => tokenize_intercalate, fun source ts hts => ?_⟩
  obtain ⟨us, hus, hsame⟩ := tokenize_respaced hts
  refine ⟨⟨us, hus, hsame⟩, fun bytes => ⟨?_, ?_⟩⟩
  · exact imageOfSource_of_lexemes hts hus hsame.symm
  · exact imageOfSource_of_lexemes hus hts hsame

/-- Two signs that would begin a comment without the space, and a text with a comment and without spaces. -/
theorem respacing_changes_nothing_comment :
    (∃ ts, tokenize "- -" = .ok ts ∧ ts.map Token.lexeme = [(.minus, "-"), (.minus, "-")])
      ∧ ∃ ts bytes, tokenize "x=.5--c\nreturnx" = .ok ts ∧ respaced ts = "x = .5 return x"
        ∧ imageOfSource "x=.5--c\nreturnx" = .ok bytes ∧ imageOfSource "x = .5 return x" = .ok bytes := by
  obtain ⟨-, hlexemes, hrespacing⟩ := respacing_changes_nothing
  constructor
  · have hminus : LexemeText .minus "-".toList :=
      .spelled (List.mem_of_getElem? (i := 22) rfl) (List.mem_singleton_self "-")
    exact hlexemes [(.minus, "-"), (.minus, "-")] (by simpa using hminus)
  · have htokens : (tokenize "x=.5--c\nreturnx").toOption.any (fun ts => respaced ts = "x = .5 return x") = true := by
      decide +kernel
    have hbytes : (imageOfSource "x=.5--c\nreturnx").toOption.any (fun _ => true) = true := by
      decide +kernel
    obtain ⟨ts, hts, hrespaced⟩ := exists_ok_of_any htokens
    obtain ⟨bytes, hbytes, -⟩ := exists_ok_of_any hbytes
    rw [decide_eq_true_eq] at hrespaced
    have himage := ((hrespacing _ ts hts).2 bytes).1 hbytes
    rw [hrespaced] at himage
    exact ⟨ts, bytes, hts, hrespaced, hbytes, himage⟩

end Scriptlet
