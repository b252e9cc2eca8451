import Mathlib.Tactic
import Scriptlet.Machine.Builtin
import Scriptlet.Proofs.Actions

/-!
# Lines

Reading gives the lines of the input one after the other, and nothing once they are used up. A printed line is read as
it was printed, unless it has a line feed in it or a carriage return at its end.
-/

namespace Scriptlet

/-! ## Bytes of texts -/

namespace Text

theorem utf8_eq_flatMap (s : String) : utf8 s = s.toList.flatMap String.utf8EncodeChar := by
  rw [utf8, String.toUTF8_eq_toByteArray, ← String.utf8Encode_toList, List.utf8Encode]
  simp

theorem utf8_append (s t : String) : utf8 (s ++ t) = utf8 s ++ utf8 t := by
  simp [utf8_eq_flatMap]

/-- A byte below 128 stands for the character of that number, and is no part of other characters. -/
theorem toNat_eq_of_mem_utf8EncodeChar {c : Char} {b : UInt8} (hb : b ∈ String.utf8EncodeChar c) (h : b.toNat < 128) :
    c.toNat = b.toNat := by
  have hc : c.toNat = c.val.toNat := rfl
  rw [hc]
  simp only [String.utf8EncodeChar] at hb
  split at hb
  · simp at hb
    subst hb
    simp at h ⊢
    omega
  · split at hb
    · simp at hb
      rcases hb with rfl | rfl <;> simp at h <;> omega
    · split at hb
      · simp at hb
        rcases hb with rfl | rfl | rfl <;> simp at h <;> omega
      · simp at hb
        rcases hb with rfl | rfl | rfl | rfl <;> simp at h <;> omega

theorem lineFeed_not_mem_utf8 {s : String} (h : '\n' ∉ s.toList) : 10 ∉ utf8 s := by
  intro hmem
  rw [utf8_eq_flatMap, List.mem_flatMap] at hmem
  obtain ⟨c, hc, hb⟩ := hmem
  have hnat := toNat_eq_of_mem_utf8EncodeChar hb (by decide)
  obtain rfl : c = '\n' := Char.toNat_inj.1 hnat
  exact h hc

end Text

namespace Console

open Streams (chop? dropEnd readLine)
open Text (utf8 utf8_append)

/-! ## Lines of texts -/

/-- A text that consists of lines, each ended by a line feed, and of what comes after the last line feed. -/
structure Lines (text : String) (ended : List String) (rest : String) : Prop where
  text_eq : text = String.join (ended.map (· ++ "\n")) ++ rest
  ended : ∀ line ∈ ended, '\n' ∉ line.toList
  rest : '\n' ∉ rest.toList

/-- A line without the carriage return at its end. -/
def withoutReturn (line : String) : String :=
  if line.toList.getLast? = some '\r' then String.ofList line.toList.dropLast else line

/-- What is read of ended lines and what comes after them. -/
def readings (ended : List String) (rest : String) : List String :=
  ended.map withoutReturn ++ if rest = "" then [] else [rest]

theorem join_cons_append (line : String) (ended : List String) (rest : String) :
    String.join ((line :: ended).map (· ++ "\n")) ++ rest
      = line ++ "\n" ++ (String.join (ended.map (· ++ "\n")) ++ rest) := by
  simp [← String.toList_inj]

theorem exists_lines (text : String) : ∃ ended rest, Lines text ended rest := by
  suffices h : ∀ cs : List Char, ∃ ended rest, Lines (String.ofList cs) ended rest by
    simpa using h text.toList
  intro cs
  induction cs with
  | nil => exact ⟨[], "", by simp, by simp, by simp⟩
  | cons c cs ih =>
      obtain ⟨ended, rest, htext, hended, hrest⟩ := ih
      have hcons : String.ofList (c :: cs) = String.ofList [c] ++ String.ofList cs := by simp
      rw [hcons, htext]
      by_cases hc : c = '\n'
      · subst hc
        refine ⟨"" :: ended, rest, ?_, by simpa using hended, hrest⟩
        simp [← String.toList_inj]
      · -- the character belongs to the first line, which may be the one that is not ended
        cases ended with
        | nil => exact ⟨[], String.ofList [c] ++ rest, by simp, by simp, by simpa [eq_comm] using ⟨hc, hrest⟩⟩
        | cons line ended =>
            obtain ⟨hline, hended⟩ := List.forall_mem_cons.1 hended
            refine ⟨(String.ofList [c] ++ line) :: ended, rest, ?_, ?_, hrest⟩
            · simp [← String.toList_inj]
            · simpa [eq_comm] using ⟨⟨hc, hline⟩, hended⟩

/-! ## Work on consoles -/

/-- The console after work on it, whether that fails or not. -/
def after {α : Type} (x : Action α) (c : Console) : Console :=
  match x c with
  | .ok _ c' => c'
  | .error _ c' => c'

theorem write_eq {c : Console} (hroom : c.room = none) (bytes : List UInt8) :
    Streams.write bytes c = .ok () { c with output := c.output ++ bytes } := by
  change write bytes c = _
  rw [write, get_bind, hroom]
  rfl

/-! ## Reading a line -/

theorem dropEnd_ended (line : String) : dropEnd (line ++ "\n") = withoutReturn line := by
  have hfeed : chop? '\n' (line ++ "\n") = some line := by simp [chop?]
  rw [dropEnd, hfeed, withoutReturn]
  simp only [chop?]
  split <;> rfl

theorem dropEnd_rest {line : String} (h : '\n' ∉ line.toList) : dropEnd line = line := by
  have hfeed : chop? '\n' line = none := if_neg fun hlast => h (List.mem_of_getLast? hlast)
  rw [dropEnd, hfeed]

theorem takeWhile_line {line : List UInt8} (h : 10 ∉ line) (after : List UInt8) :
    (line ++ after).takeWhile (· ≠ 10) = line ++ after.takeWhile (· ≠ 10) :=
  List.takeWhile_append_of_pos (by simpa using fun b hb => ne_of_mem_of_not_mem hb h)

theorem splitLine_ended {line : List UInt8} (h : 10 ∉ line) (after : List UInt8) :
    splitLine (line ++ 10 :: after) = (line ++ [10], after) := by
  have htake : (line ++ 10 :: after).takeWhile (· ≠ 10) = line := by
    rw [takeWhile_line h]
    simp
  simp only [splitLine, htake, List.drop_left]

theorem splitLine_rest {line : List UInt8} (h : 10 ∉ line) : splitLine line = (line, []) := by
  have htake : line.takeWhile (· ≠ 10) = line := by simpa using takeWhile_line h []
  simp only [splitLine, htake, List.drop_length]

section Reading

variable {c : Console} {line text rest : String}

theorem takeLine_of_splitLine {left : List UInt8} (h : splitLine c.input = (utf8 line, left)) :
    takeLine c = .ok line { c with input := left } := by
  rw [takeLine, get_bind, h]
  simp only [set_bind, Text.ofUtf8?_utf8]
  rfl

theorem readLine_of_splitLine {left : List UInt8} (h : splitLine c.input = (utf8 line, left)) :
    readLine c = .ok (if line = "" then none else some (dropEnd line)) { c with input := left } :=
  bind_ok (takeLine_of_splitLine h)

theorem readLine_nil (hc : c.input = []) : readLine c = .ok none c := by
  have hsplit : splitLine c.input = (utf8 "", []) := by
    rw [hc]
    rfl
  rw [readLine_of_splitLine hsplit, if_pos rfl, ← hc]

theorem readLine_ended (hc : c.input = utf8 (line ++ "\n" ++ text)) (hline : '\n' ∉ line.toList) :
    readLine c = .ok (some (withoutReturn line)) { c with input := utf8 text } := by
  have hfeed : utf8 "\n" = [10] := rfl
  have hne : line ++ "\n" ≠ "" := fun hnil => by simpa using congrArg String.length hnil
  have hsplit : splitLine c.input = (utf8 (line ++ "\n"), utf8 text) := by
    rw [hc, utf8_append, utf8_append, hfeed, List.append_assoc, List.singleton_append,
      splitLine_ended (Text.lineFeed_not_mem_utf8 hline)]
  rw [readLine_of_splitLine hsplit, if_neg hne, dropEnd_ended]

theorem readLine_rest (hc : c.input = utf8 rest) (hrest : '\n' ∉ rest.toList) (hne : rest ≠ "") :
    readLine c = .ok (some rest) { c with input := [] } := by
  have hsplit : splitLine c.input = (utf8 rest, []) := by
    rw [hc, splitLine_rest (Text.lineFeed_not_mem_utf8 hrest)]
  rw [readLine_of_splitLine hsplit, if_neg hne, dropEnd_rest hrest]

end Reading

/-! ## Reading all lines -/

/-- Reads as often as told. -/
def readLines : Nat → Action (List (Option String))
  | 0 => return []
  | n + 1 => do
    let line ← readLine
    return line :: (← readLines n)

theorem readLines_succ {c c' c'' : Console} {n : Nat} {line : Option String} {lines : List (Option String)}
    (hline : readLine c = .ok line c') (hlines : readLines n c' = .ok lines c'') :
    readLines (n + 1) c = .ok (line :: lines) c'' := by
  rw [readLines, bind_ok hline, bind_ok hlines]
  rfl

theorem readLines_nil {c : Console} (hc : c.input = []) (n : Nat) :
    readLines n c = .ok (List.replicate n none) c := by
  induction n with
  | zero => rfl
  | succ n ih => exact readLines_succ (readLine_nil hc) ih

theorem map_getElem?_nil (n : Nat) : ((List.range n).map fun k => ([] : List String)[k]?) = List.replicate n none := by
  simp [List.map_const']

/-- Reading again and again gives all there is to read in its order, and then nothing. -/
theorem readLines_eq {text rest : String} {ended : List String} (h : Lines text ended rest) {c : Console}
    (hc : c.input = utf8 text) (n : Nat) : ∃ left,
    readLines n c = .ok ((List.range n).map fun k => (readings ended rest)[k]?) { c with input := left } := by
  obtain ⟨rfl, hended, hrest⟩ := h
  induction n generalizing ended c with
  | zero => exact ⟨c.input, rfl⟩
  | succ n ih =>
      cases ended with
      | cons line ended =>
          obtain ⟨hline, hended⟩ := List.forall_mem_cons.1 hended
          rw [join_cons_append] at hc
          obtain ⟨left, hlines⟩ := @ih ended { c with input := utf8 (String.join (ended.map (· ++ "\n")) ++ rest) }
            hended rfl
          rw [List.range_succ_eq_map, List.map_cons, List.map_map]
          exact ⟨left, readLines_succ (readLine_ended hc hline) hlines⟩
      | nil =>
          simp only [List.map_nil, String.join_nil, String.empty_append] at hc
          by_cases hne : rest = ""
          · subst hne
            have hnil : c.input = [] := hc
            refine ⟨c.input, ?_⟩
            rw [readLines_nil hnil, ← map_getElem?_nil]
            rfl
          · have hreadings : readings [] rest = [rest] := by simp [readings, hne]
            refine ⟨[], ?_⟩
            rw [hreadings, List.range_succ_eq_map, List.map_cons, List.map_map,
              readLines_succ (readLine_rest hc hrest hne) (readLines_nil rfl n), ← map_getElem?_nil]
            rfl

end Console

namespace Builtin

open Console Text
open Streams (readLine writeLine)

/-! ## Printing -/

/-- The console after `print` was called again and again, whether the calls fail or not. -/
def printed (c : Console) (calls : List (List Value)) : Console :=
  calls.foldl (fun c args => after (print.run args) c) c

/-- What is written when values are printed. -/
def printout (args : List Value) : String :=
  String.join (args.map fun v => v.text ++ "\n")

theorem printLines_eq {c : Console} (hroom : c.room = none) (args : List Value) :
    printLines args c = .ok () { c with output := c.output ++ utf8 (printout args) } := by
  induction args generalizing c with
  | nil => simp [printLines, printout, pure, EStateM.pure, utf8]
  | cons v args ih =>
      have hwrite : writeLine v.text c = .ok () { c with output := c.output ++ utf8 (v.text ++ "\n") } := by
        rw [writeLine, bind_ok (write_eq hroom _), utf8_append, ← List.append_assoc]
        exact write_eq (c := { c with output := c.output ++ utf8 v.text }) hroom [10]
      have hjoin : printout (v :: args) = v.text ++ "\n" ++ printout args := by simp [printout]
      have hrest := @ih { c with output := c.output ++ utf8 (v.text ++ "\n") } hroom
      rw [printLines, bind_ok hwrite, hrest, hjoin, utf8_append (v.text ++ "\n"), List.append_assoc]

theorem after_print {c : Console} (hroom : c.room = none) (args : List Value) :
    after (print.run args) c
      = { c with output := c.output ++ utf8 (printout args), flushes := c.flushes + 1 } := by
  have hflush : ∀ d : Console, after (do flush; return Value.nil) d = { d with flushes := d.flushes + 1 } := by
    intro d
    rw [after, flush, bind_assoc, get_bind]
    by_cases hfails : d.failingFlush = some (d.flushes + 1)
    · simp only [hfails, if_true]
      rfl
    · simp only [hfails, if_false]
      rfl
  rw [after, run, bind_ok (printLines_eq hroom args)]
  exact hflush _

theorem output_printed {c : Console} (hroom : c.room = none) (calls : List (List Value)) :
    (printed c calls).output = c.output ++ utf8 (printout calls.flatten) := by
  induction calls generalizing c with
  | nil => simp [printed, printout, utf8]
  | cons args calls ih =>
      have hjoin : printout (args :: calls).flatten = printout args ++ printout calls.flatten := by simp [printout]
      have hcalls := @ih { c with output := c.output ++ utf8 (printout args), flushes := c.flushes + 1 } hroom
      rw [printed, List.foldl_cons, after_print hroom, ← printed, hcalls, hjoin, utf8_append, List.append_assoc]

/-! ## Reading what was printed -/

/-- The value that `read` gives for what was read. -/
def reading : Option String → Value
  | some line => .string line
  | none => .nil

theorem run_read {σ : Type} [Streams σ] (args : List Value) :
    (read.run args : StreamM σ Value) = do return reading (← readLine) := by
  funext c
  simp only [run, bind, EStateM.bind]
  cases readLine c with
  | error e c' => rfl
  | ok line c' => cases line <;> rfl

theorem mapM_read {c c' : Console} {argss : List (List Value)} {lines : List (Option String)}
    (h : readLines argss.length c = .ok lines c') : argss.mapM read.run c = .ok (lines.map reading) c' := by
  induction argss generalizing c lines with
  | nil =>
      cases h
      rfl
  | cons args argss ih =>
      cases hline : readLine c with
      | error e c₁ =>
          rw [List.length_cons, readLines, bind_error hline] at h
          cases h
      | ok line c₁ =>
          cases hlines : readLines argss.length c₁ with
          | error e c₂ =>
              rw [List.length_cons, readLines, bind_ok hline, bind_error hlines] at h
              cases h
          | ok rest c₂ =>
              rw [List.length_cons, readLines_succ hline hlines] at h
              cases h
              have hread : read.run args c = .ok (reading line) c₁ := by
                rw [run_read, bind_ok hline]
                rfl
              rw [List.mapM_cons, bind_ok hread, bind_ok (ih hlines)]
              rfl

theorem withoutReturn_eq {line : String} (h : line.toList.getLast? ≠ some '\r') : withoutReturn line = line :=
  if_neg h

/-- What is printed is read back. Reading a text gives its ended lines, each without its line feed and a carriage return
before it, then what comes after them, if there is anything, as it is, and then nothing. So strings that are printed, in
as many calls as one likes, are read as they are, if they have no line feed and no carriage return at the end. -/
theorem printed_lines_are_read :
    (∀ (text : String) (c : Console), c.input = utf8 text → (∃ ended rest, Lines text ended rest)
      ∧ ∀ ended rest, Lines text ended rest → ∀ n, ∃ left,
        readLines n c = .ok ((List.range n).map fun k => (readings ended rest)[k]?) { c with input := left })
    ∧ ∀ (strings : List String) (calls : List (List String)) (writer reader : Console) (argss : List (List Value)),
      (∀ s ∈ strings, '\n' ∉ s.toList ∧ s.toList.getLast? ≠ some '\r') → calls.flatten = strings →
      writer.output = [] → writer.room = none →
      reader.input = (printed writer (calls.map fun args => args.map .string)).output → ∃ left,
      argss.mapM read.run reader
        = .ok ((List.range argss.length).map fun k => reading strings[k]?) { reader with input := left } := by
  constructor
  · intro text c hc
    exact ⟨exists_lines text, fun ended rest hlines => readLines_eq hlines hc⟩
  · intro strings calls writer reader argss hstrings hcalls houtput hroom hinput
    have hprintout : printout (calls.map fun args => args.map Value.string).flatten
        = String.join (strings.map (· ++ "\n")) := by
      rw [← List.map_flatten, hcalls, printout, List.map_map]
      rfl
    have hlines : Lines (String.join (strings.map (· ++ "\n"))) strings "" :=
      ⟨by simp, fun s hs => (hstrings s hs).1, by simp⟩
    have hreadings : readings strings "" = strings := by
      rw [readings, if_pos rfl, List.append_nil, List.map_congr_left fun s hs => withoutReturn_eq (hstrings s hs).2,
        List.map_id']
    rw [output_printed hroom, houtput, List.nil_append, hprintout] at hinput
    obtain ⟨left, hread⟩ := readLines_eq hlines hinput argss.length
    rw [hreadings] at hread
    refine ⟨left, ?_⟩
    rw [mapM_read hread, List.map_map]
    rfl

/-- Carriage returns before a line feed, alone on a line and at the end of the input; two prints of strings, one of them
empty, and one of nothing. -/
theorem printed_lines_are_read_grouped :
    (∃ left, readLines 4 (.new (utf8 "a\r\r\n\r\nb\r") none none)
      = .ok [some "a\r", some "", some "b\r", none] (.new left none none))
    ∧ ∃ left, [[], [], [], []].mapM read.run
        (Console.new (printed (.new [] none none) [[.string "a", .string ""], [], [.string "b"]]).output none none)
      = .ok [.string "a", .string "", .string "b", .nil] (.new left none none) := by
  obtain ⟨hread, hprint⟩ := printed_lines_are_read
  have hlines : Lines "a\r\r\n\r\nb\r" ["a\r\r", "\r"] "b\r" := ⟨by decide, by decide, by decide⟩
  have hreadings : readings ["a\r\r", "\r"] "b\r" = ["a\r", "", "b\r"] := by decide
  obtain ⟨-, htext⟩ := hread "a\r\r\n\r\nb\r" (.new (utf8 "a\r\r\n\r\nb\r") none none) rfl
  obtain ⟨left, hleft⟩ := htext _ _ hlines 4
  rw [hreadings] at hleft
  exact ⟨⟨left, hleft⟩, hprint ["a", "", "b"] [["a", ""], [], ["b"]] _ _ [[], [], [], []] (by decide) rfl rfl rfl rfl⟩

end Builtin

end Scriptlet
