import Scriptlet.Text.Utf8
import Scriptlet.Token.Scan

/-!
# Lexers

A lexer hands out the tokens of a text one at a time. It keeps the byte where it stands and counts lines and columns as
it goes: a blank is one column, a line break is one line, and a lexeme is as many columns as it has characters while
the byte moves by the length of its bytes. The rest of the text is cut off at a byte, so an operation has no result
where that byte is inside a character.
-/

namespace Scriptlet

/-- A text, the byte where the lexer stands, the line and column there, and whether an error was handed out. -/
structure Lexer where
  source : String
  index : Nat
  line : Nat
  col : Nat
  failed : Bool
deriving DecidableEq

namespace Lexer

/-- What a lexer hands out. -/
abbrev Item := Except ScanError Token

/-- A lexer at the start of a text. -/
def new (source : String) : Lexer :=
  ⟨source, 0, 1, 1, false⟩

/-- Starts again with another text. -/
def reset (l : Lexer) (source : String) : Lexer :=
  { l with source := source, index := 0, line := 1, col := 1, failed := false }

/-- The place where the lexer stands. -/
def position (l : Lexer) : Position :=
  ⟨l.line, l.col⟩

/-- The text that is left. -/
def rest? (l : Lexer) : Option (List Char) :=
  Text.fromByte? l.index l.source.toList

/-- The next character, if the text goes on. -/
def current? (l : Lexer) : Option (Option Char) :=
  l.rest?.map List.head?

/-- A line break is a line feed, perhaps with a carriage return before it. -/
def atLineBreak? (l : Lexer) : Option Bool :=
  l.rest?.map fun cs => ['\n'].isPrefixOf cs || ['\r', '\n'].isPrefixOf cs

/-- Passes over a line break or over one character. -/
def advance (l : Lexer) : Option Lexer := do
  let some c ← l.current? | return l
  if ← l.atLineBreak? then
    let index := if c = '\r' then l.index + 1 else l.index
    return { l with index := index + 1, line := l.line + 1, col := 1 }
  else
    return { l with index := l.index + c.utf8Size, col := l.col + 1 }

/-- How many bytes are left. -/
def bytesLeft (l : Lexer) : Nat :=
  l.source.utf8ByteSize - l.index

/-- To go on where there is a character leaves fewer bytes. -/
theorem bytesLeft_lt {l l' : Lexer} {c : Char} (hc : l.current? = some (some c)) (hsource : l'.source = l.source)
    (hindex : l.index < l'.index) : l'.bytesLeft < l.bytesLeft := by
  obtain ⟨cs, hrest, hhead⟩ := Option.map_eq_some_iff.1 hc
  obtain ⟨cs, rfl⟩ := List.head?_eq_some_iff.1 hhead
  have hsize := Text.utf8ByteSize_of_fromByte? hrest
  have hpos := c.utf8Size_pos
  rw [Text.utf8ByteSize_cons, String.ofList_toList] at hsize
  rw [bytesLeft, bytesLeft, hsource]
  omega

theorem bytesLeft_advance {l l' : Lexer} {c : Char} (hc : l.current? = some (some c)) (h : l.advance = some l') :
    l'.bytesLeft < l.bytesLeft := by
  obtain ⟨breaks, hbreaks, hnext⟩ := Option.bind_eq_some_iff.1 (by simpa [advance, hc] using h)
  have hpos := c.utf8Size_pos
  cases breaks with
  | false =>
      cases hnext
      exact bytesLeft_lt hc rfl (Nat.lt_add_of_pos_right hpos)
  | true =>
      cases hnext
      refine bytesLeft_lt hc rfl ?_
      dsimp only
      split <;> omega

/-- Passes over blanks and line breaks. -/
def skipBlanks (l : Lexer) : Option Lexer :=
  match hc : l.current? with
  | none => none
  | some none => some l
  | some (some c) =>
    if Text.isBlank c then
      match h : l.advance with
      | none => none
      | some l' =>
        have := bytesLeft_advance hc h
        l'.skipBlanks
    else some l
termination_by l.bytesLeft

theorem bytesLeft_skipBlanks {l l' : Lexer} (h : l.skipBlanks = some l') : l'.bytesLeft ≤ l.bytesLeft := by
  fun_induction skipBlanks l with
  | case1 => cases h
  | case2 => cases h; exact Nat.le_refl _
  | case3 => cases h
  | case4 l c hc hblank next hnext hless ih => exact Nat.le_trans (ih h) (Nat.le_of_lt hless)
  | case5 => cases h; exact Nat.le_refl _

/-- The next token, comments included. -/
def nextRaw (l : Lexer) : Option (Option Item × Lexer) := do
  let l ← l.skipBlanks
  let some c ← l.current? | return (none, l)
  match firstLexeme? (← l.rest?) with
  | none => return (some (.error ⟨l.position, c⟩), l)
  | some (tag, lexeme) =>
    let text := String.ofList lexeme
    return (some (.ok ⟨tag, l.position, text⟩),
      { l with index := l.index + text.utf8ByteSize, col := l.col + lexeme.length })

theorem bytesLeft_nextRaw {l l' : Lexer} {t : Token} (h : l.nextRaw = some (some (.ok t), l')) :
    l'.bytesLeft < l.bytesLeft := by
  obtain ⟨start, hstart, hnext⟩ := Option.bind_eq_some_iff.1 h
  obtain ⟨current, hcurrent, hnext⟩ := Option.bind_eq_some_iff.1 hnext
  cases current with
  | none => cases hnext
  | some c =>
      obtain ⟨cs, hrest, hnext⟩ := Option.bind_eq_some_iff.1 hnext
      cases hfirst : firstLexeme? cs with
      | none => simp [hfirst] at hnext
      | some found =>
          obtain ⟨tag, lexeme⟩ := found
          have hpos : 0 < (String.ofList lexeme).utf8ByteSize := by
            obtain ⟨d, text, rfl⟩ := List.exists_cons_of_ne_nil (firstLexeme?_ne_nil hfirst)
            have hd := d.utf8Size_pos
            rw [Text.utf8ByteSize_cons]
            omega
          simp only [hfirst] at hnext
          cases hnext
          refine Nat.lt_of_lt_of_le (bytesLeft_lt hcurrent rfl ?_) (bytesLeft_skipBlanks hstart)
          exact Nat.lt_add_of_pos_right hpos

/-- The next token that is no comment. -/
def nextToken (l : Lexer) : Option (Option Item × Lexer) :=
  match h : l.nextRaw with
  | none => none
  | some (none, l') => some (none, l')
  | some (some (.error e), l') => some (some (.error e), { l' with failed := true })
  | some (some (.ok t), l') =>
    have := bytesLeft_nextRaw h
    if t.tag = .comment then l'.nextToken else some (some (.ok t), l')
termination_by l.bytesLeft

theorem bytesLeft_nextToken {l l' : Lexer} {t : Token} (h : l.nextToken = some (some (.ok t), l')) :
    l'.bytesLeft < l.bytesLeft := by
  fun_induction nextToken l with
  | case1 => cases h
  | case2 => cases h
  | case3 => cases h
  | case4 l t next hnext hless hcomment ih => exact Nat.lt_trans (ih h) hless
  | case5 l t next hnext hless hcomment => cases h; exact hless

/-- The next token or error. Nothing comes after an error. -/
def next (l : Lexer) : Option (Option Item × Lexer) :=
  if l.failed then some (none, l) else l.nextToken

theorem bytesLeft_next {l l' : Lexer} {t : Token} (h : l.next = some (some (.ok t), l')) :
    l'.bytesLeft < l.bytesLeft := by
  rw [next] at h
  split at h
  · cases h
  · exact bytesLeft_nextToken h

/-- All tokens that are left, or the error. -/
def tokenize (l : Lexer) : Option (Except ScanError (List Token) × Lexer) :=
  match h : l.next with
  | none => none
  | some (none, l') => some (.ok [], l')
  | some (some (.error e), l') => some (.error e, l')
  | some (some (.ok t), l') =>
    have := bytesLeft_next h
    l'.tokenize.map fun (ts, l'') => (ts.map (t :: ·), l'')
termination_by l.bytesLeft

end Lexer

end Scriptlet
