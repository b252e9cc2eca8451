import Mathlib.Tactic
import Scriptlet.Proofs.Token.Placement
import Scriptlet.Token.Lexer

/-!
# What a lexer hands out

A lexer counts bytes, lines and columns as it goes, on three paths: over a line break, over another blank and over a
whole lexeme. On each path the counts stay those of the text that is passed over, so that the lexer always stands at the
first byte of a character, and it hands out the items of the scan of the text one by one.
-/

namespace Scriptlet

/-! ## Bytes and columns -/

theorem Text.fromByte?_append (before rest : List Char) :
    fromByte? (String.ofList before).utf8ByteSize (before ++ rest) = some rest := by
  induction before with
  | nil => cases rest <;> simp [fromByte?]
  | cons c before ih =>
      have hpos := c.utf8Size_pos
      rw [utf8ByteSize_cons, List.cons_append, fromByte?, if_neg (by omega), if_neg (by omega),
        Nat.add_sub_cancel_left, ih]

/-- A text without line ends stays on the line. -/
theorem Position.after_append_of_not_mem (before : List Char) {text : List Char} (h : '\n' ∉ text) :
    after (before ++ text) = ⟨(after before).line, (after before).col + text.length⟩ := by
  have hall : ∀ c ∈ text.reverse, (decide (c ≠ '\n')) = true := by
    intro c hc
    simpa using fun heq : c = '\n' => h (heq ▸ List.mem_reverse.1 hc)
  simp only [after, List.count_append, List.count_eq_zero.2 h, List.reverse_append, List.takeWhile_append_of_pos hall,
    List.length_append, List.length_reverse, mk.injEq]
  omega

theorem Scan.ofChars_blanks {gap : List Char} (hgap : ∀ c ∈ gap, Text.isBlank c = true) (p : Position)
    (rest : List Char) : ofChars 0 p (gap ++ rest) = ofChars 0 (gap.foldl Position.advance p) rest := by
  induction gap generalizing p with
  | nil => rfl
  | cons c gap ih =>
      rw [List.cons_append, ofChars, if_pos (hgap c List.mem_cons_self), List.foldl_cons]
      exact ih (fun d hd => hgap d (List.mem_cons_of_mem c hd)) _

namespace Lexer

/-! ## Where a lexer stands -/

/-- The lexer stands between two parts of its text, and all its counts are those of the first part. -/
structure At (l : Lexer) (before rest : List Char) : Prop where
  source : l.source.toList = before ++ rest
  index : l.index = (String.ofList before).utf8ByteSize
  position : l.position = .after before

variable {l : Lexer} {before cs : List Char}

theorem at_new (source : String) : (new source).At [] source.toList :=
  ⟨rfl, rfl, rfl⟩

theorem At.rest? (h : l.At before cs) : l.rest? = some cs := by
  rw [Lexer.rest?, h.source, h.index, Text.fromByte?_append]

theorem At.current? (h : l.At before cs) : l.current? = some cs.head? := by
  rw [Lexer.current?, h.rest?, Option.map_some]

/-- To pass over a text is to add its bytes to the index and to go to the position after it. -/
theorem At.pass {l' : Lexer} {text rest : List Char} (h : l.At before (text ++ rest)) (hsource : l'.source = l.source)
    (hindex : l'.index = l.index + (String.ofList text).utf8ByteSize)
    (hposition : l'.position = .after (before ++ text)) : l'.At (before ++ text) rest := by
  refine ⟨?_, ?_, hposition⟩
  · rw [hsource, h.source, List.append_assoc]
  · rw [hindex, h.index, String.ofList_append, String.utf8ByteSize_append]

/-- A line break starts a new line, whether it has one character or two. -/
theorem At.advance_lineBreak {text rest : List Char} (h : l.At before (text ++ rest))
    (htext : text = ['\n'] ∨ text = ['\r', '\n']) :
    ∃ l', l.advance = some l' ∧ l'.At (before ++ text) rest ∧ l'.failed = l.failed := by
  refine ⟨{ l with index := l.index + text.length, line := l.line + 1, col := 1 }, ?_, h.pass rfl ?_ ?_, rfl⟩
  · rcases htext with rfl | rfl <;> simp [Lexer.advance, h.current?, atLineBreak?, h.rest?]
  · rcases htext with rfl | rfl <;> rfl
  · rw [Position.after_append, ← h.position]
    rcases htext with rfl | rfl <;> rfl

/-- Any other character is one more column, however many bytes it has. -/
theorem At.advance_char {c : Char} (h : l.At before (c :: cs)) (hline : c ≠ '\n')
    (hreturn : ¬['\r', '\n'] <+: c :: cs) :
    ∃ l', l.advance = some l' ∧ l'.At (before ++ [c]) cs ∧ l'.failed = l.failed := by
  have hbreak : (['\n'].isPrefixOf (c :: cs) || ['\r', '\n'].isPrefixOf (c :: cs)) = false := by
    rw [Bool.or_eq_false_iff, Bool.eq_false_iff, Bool.eq_false_iff, Ne, Ne, List.isPrefixOf_iff_prefix,
      List.isPrefixOf_iff_prefix]
    exact ⟨fun hfeed => hline (List.cons_prefix_cons.1 hfeed).1.symm, hreturn⟩
  refine ⟨{ l with index := l.index + c.utf8Size, col := l.col + 1 }, ?_, At.pass h rfl ?_ ?_, rfl⟩
  · simp [Lexer.advance, h.current?, atLineBreak?, h.rest?, hbreak]
  · simp
  · rw [Position.after_concat, ← h.position, Position.advance, if_neg hline]
    rfl

/-- One step at a blank passes over it, and over a line feed too where it comes after a carriage return. -/
theorem At.advance {c : Char} (h : l.At before (c :: cs)) (hc : Text.isBlank c = true) :
    ∃ text rest l', c :: cs = text ++ rest ∧ (∀ d ∈ text, Text.isBlank d = true) ∧ l.advance = some l'
      ∧ l'.At (before ++ text) rest ∧ l'.failed = l.failed := by
  by_cases hline : c = '\n'
  · subst hline
    obtain ⟨l', hl'⟩ := @At.advance_lineBreak l before ['\n'] cs h (.inl rfl)
    exact ⟨['\n'], cs, l', rfl, by simpa using hc, hl'⟩
  · by_cases hreturn : ['\r', '\n'] <+: c :: cs
    · obtain ⟨rest, hrest⟩ := hreturn
      rw [← hrest] at h
      obtain ⟨l', hl'⟩ := h.advance_lineBreak (.inr rfl)
      exact ⟨['\r', '\n'], rest, l', hrest.symm, List.forall_mem_cons.2 ⟨rfl, List.forall_mem_singleton.2 rfl⟩, hl'⟩
    · obtain ⟨l', hl'⟩ := h.advance_char hline hreturn
      exact ⟨[c], cs, l', rfl, by simpa using hc, hl'⟩

/-- The lexer passes over all blanks before the next character that is none. -/
theorem At.skipBlanks (h : l.At before cs) :
    ∃ gap rest l', cs = gap ++ rest ∧ (∀ c ∈ gap, Text.isBlank c = true) ∧ (∀ c ∈ rest.head?, Text.isBlank c = false)
      ∧ l.skipBlanks = some l' ∧ l'.At (before ++ gap) rest ∧ l'.failed = l.failed := by
  fun_induction Lexer.skipBlanks l generalizing before cs with
  | case1 l hc => simp [h.current?] at hc
  | case2 l hc =>
      have hend : cs = [] := by simpa [h.current?] using hc
      exact ⟨[], [], l, by simp [hend], by simp, by simp, rfl, by simpa [hend] using h, rfl⟩
  | case3 l c hc hblank hnone =>
      obtain ⟨rest, rfl⟩ : ∃ rest, cs = c :: rest := List.head?_eq_some_iff.1 (by simpa [h.current?] using hc)
      obtain ⟨_, _, _, -, -, hadvance, -⟩ := h.advance hblank
      rw [hnone] at hadvance
      cases hadvance
  | case4 l c hc hblank l' hnext hless ih =>
      obtain ⟨rest, rfl⟩ : ∃ rest, cs = c :: rest := List.head?_eq_some_iff.1 (by simpa [h.current?] using hc)
      obtain ⟨text, rest, l₁, hcs, htext, hadvance, hat, hfailed⟩ := h.advance hblank
      obtain rfl : l' = l₁ := Option.some.inj (hnext.symm.trans hadvance)
      obtain ⟨gap, rest, l₂, rfl, hgap, hhead, hskip, hat, hfailed'⟩ := ih hat
      refine ⟨text ++ gap, rest, l₂, by rw [hcs, List.append_assoc], ?_, hhead, hskip, ?_, hfailed'.trans hfailed⟩
      · exact List.forall_mem_append.2 ⟨htext, hgap⟩
      · rwa [← List.append_assoc]
  | case5 l c hc hblank =>
      refine ⟨[], cs, l, rfl, by simp, fun d hd => ?_, rfl, by simpa using h, rfl⟩
      obtain rfl : c = d := by simpa [h.current?, Option.mem_def.1 hd] using hc.symm
      simpa using hblank

/-! ## What comes next -/

/-- How far a lexer is with the scan of its text. After an error nothing is left of it. -/
inductive Follows : Lexer → Scan → Prop
  | running {l : Lexer} {before rest : List Char} : l.At before rest → l.failed = false →
      Follows l (.ofChars 0 (.after before) rest)
  | failed {l : Lexer} : l.failed = true → Follows l .finished

theorem follows_new (source : String) : (new source).Follows (.ofSource source) :=
  .running (at_new source) rfl

/-- The next item with comments: the end of the scan, its error, or a lexeme with the scan of what comes after it. -/
theorem At.nextRaw (h : l.At before cs) :
    (∃ l', l.nextRaw = some (none, l') ∧ l'.At (before ++ cs) [] ∧ l'.failed = l.failed
        ∧ Scan.ofChars 0 (.after before) cs = .finished)
      ∨ (∃ e l', l.nextRaw = some (some (.error e), l') ∧ Scan.ofChars 0 (.after before) cs = .failed e)
      ∨ ∃ t l' before' rest, l.nextRaw = some (some (.ok t), l') ∧ l'.At before' rest ∧ l'.failed = l.failed
        ∧ Scan.ofChars 0 (.after before) cs
          = if t.tag = .comment then .ofChars 0 (.after before') rest else .token t (.ofChars 0 (.after before') rest) := by
  obtain ⟨gap, rest, l', rfl, hgap, hhead, hskip, hat, hfailed⟩ := h.skipBlanks
  rw [Scan.ofChars_blanks hgap, ← Position.after_append]
  cases rest with
  | nil =>
      refine .inl ⟨l', ?_, by simpa using hat, hfailed, rfl⟩
      simp [Lexer.nextRaw, hskip, hat.current?]
  | cons c cs =>
      have hblank : ¬Text.isBlank c = true := by simp [hhead c rfl]
      rw [Scan.ofChars, if_neg hblank]
      cases hfirst : firstLexeme? (c :: cs) with
      | none =>
          refine .inr (.inl ⟨_, l', ?_, rfl⟩)
          simp [Lexer.nextRaw, hskip, hat.current?, hat.rest?, hfirst, hat.position]
      | some found =>
          obtain ⟨tag, lexeme⟩ := found
          have hrule := firstRule_of_firstLexeme? hfirst
          obtain ⟨rest, hcs⟩ := hrule.exists_append
          -- a lexeme is on one line, so the columns of its characters are all that is to add
          have hplace := Position.after_append_of_not_mem (before ++ gap) hrule.newline_not_mem
          rw [← hat.position] at hplace
          have hlexeme : l'.At (before ++ gap) (lexeme ++ rest) := hcs ▸ hat
          refine .inr (.inr ⟨⟨tag, .after (before ++ gap), String.ofList lexeme⟩,
            { l' with index := l'.index + (String.ofList lexeme).utf8ByteSize, col := l'.col + lexeme.length },
            before ++ gap ++ lexeme, rest, ?_, hlexeme.pass rfl rfl hplace.symm, hfailed, ?_⟩)
          · simp [Lexer.nextRaw, hskip, hat.current?, hat.rest?, hfirst, hat.position]
          · dsimp only
            rw [Scan.ofChars_lexeme hcs (firstLexeme?_ne_nil hfirst)]

theorem nextToken_eq (l : Lexer) :
    l.nextToken = l.nextRaw.bind fun
      | (none, l') => some (none, l')
      | (some (.error e), l') => some (some (.error e), { l' with failed := true })
      | (some (.ok t), l') => if t.tag = .comment then l'.nextToken else some (some (.ok t), l') := by
  rw [Lexer.nextToken]
  split <;> simp [*]

/-- The lexer hands out the next item of the scan and goes on with the rest. -/
theorem At.nextToken (h : l.At before cs) (hfailed : l.failed = false) :
    ∃ l', l.nextToken = some ((Scan.ofChars 0 (.after before) cs).next?.1, l')
      ∧ l'.Follows (Scan.ofChars 0 (.after before) cs).next?.2 := by
  induction hsize : l.bytesLeft using Nat.strong_induction_on generalizing l before cs with
  | h n ih =>
    subst hsize
    rcases h.nextRaw with ⟨l', hraw, hat, hkept, hscan⟩ | ⟨e, l', hraw, hscan⟩
      | ⟨t, l', before', rest, hraw, hat, hkept, hscan⟩
    · rw [nextToken_eq, hraw, hscan]
      exact ⟨l', rfl, .running hat (hkept.trans hfailed)⟩
    · rw [nextToken_eq, hraw, hscan]
      exact ⟨_, rfl, .failed rfl⟩
    · rw [nextToken_eq, hraw, hscan]
      by_cases hcomment : t.tag = .comment
      · rw [if_pos hcomment]
        simpa only [Option.bind_some, if_pos hcomment] using
          ih _ (bytesLeft_nextRaw hraw) hat (hkept.trans hfailed) rfl
      · rw [if_neg hcomment]
        refine ⟨l', ?_, .running hat (hkept.trans hfailed)⟩
        simp only [Option.bind_some, if_neg hcomment]
        rfl

theorem Follows.next {s : Scan} (h : l.Follows s) : ∃ l', l.next = some (s.next?.1, l') ∧ l'.Follows s.next?.2 := by
  cases h with
  | running hat hfailed =>
      rw [Lexer.next, if_neg (by simp [hfailed])]
      exact hat.nextToken hfailed
  | failed hfailed => exact ⟨l, by rw [Lexer.next, if_pos hfailed]; rfl, .failed hfailed⟩

/-- The item that comes after a number of others. -/
def item? : Nat → Lexer → Option (Option Item)
  | 0, l => l.next.map Prod.fst
  | n + 1, l => l.next.bind fun (_, l') => item? n l'

theorem Follows.item? {s : Scan} (h : l.Follows s) (n : Nat) :
    l.item? n = some ((fun s : Scan => s.next?.2)^[n] s).next?.1 := by
  induction n generalizing l s with
  | zero =>
      obtain ⟨l', hnext, -⟩ := h.next
      simp [Lexer.item?, hnext]
  | succ n ih =>
      obtain ⟨l', hnext, hrest⟩ := h.next
      simp [Lexer.item?, hnext, ih hrest]

theorem tokenize_eq (l : Lexer) :
    l.tokenize = l.next.bind fun
      | (none, l') => some (.ok [], l')
      | (some (.error e), l') => some (.error e, l')
      | (some (.ok t), l') => l'.tokenize.map fun (ts, l'') => (ts.map (t :: ·), l'') := by
  rw [Lexer.tokenize]
  split <;> simp [*]

theorem Follows.tokenize {s : Scan} (h : l.Follows s) : ∃ l', l.tokenize = some (s.toList, l') := by
  induction s generalizing l with
  | finished =>
      obtain ⟨l', hnext, -⟩ := h.next
      exact ⟨l', by rw [tokenize_eq, hnext]; rfl⟩
  | failed e =>
      obtain ⟨l', hnext, -⟩ := h.next
      exact ⟨l', by rw [tokenize_eq, hnext]; rfl⟩
  | token t rest ih =>
      obtain ⟨l', hnext, hrest⟩ := h.next
      obtain ⟨l'', htokenize⟩ := ih hrest
      refine ⟨l'', ?_⟩
      rw [tokenize_eq, hnext]
      simp only [Scan.next?, Option.bind_some, Option.map_some, htokenize]
      rfl

end Lexer

/-- Tokens lie in the text in order, with nothing but blanks and comments between them, and each is what the first rule
that matches there cuts off. Each tells its line and column. The tokens come to an end, perhaps with an error, which
tells the place of a character that no rule matches at. -/
theorem tokens_placed (source : String) : ∃ tokens error,
    (∀ n, (Lexer.new source).item? n = some (tokens.map .ok ++ error.toList.map .error)[n]?)
      ∧ (∃ l, (Lexer.new source).tokenize = some (tokenize source, l))
      ∧ (∀ n, ((fun s : Scan => s.next?.2)^[n] (Scan.ofSource source)).next?.1
        = (tokens.map .ok ++ error.toList.map .error)[n]?)
      ∧ (tokenize source = match error with
        | none => .ok tokens
        | some e => .error e)
      ∧ Placed [] source.toList tokens error := by
  have hitems := (Scan.ofSource source).next?_iterate
  have hlexer := Lexer.follows_new source
  refine ⟨_, _, fun n => ?_, hlexer.tokenize, hitems, (Scan.ofSource source).toList_eq,
    placed_ofChars [] source.toList⟩
  rw [hlexer.item?, hitems]

end Scriptlet
