import Mathlib.Tactic
import Scriptlet.Proofs.Ir.Blocks
import Scriptlet.Proofs.Ir.StaticScope

/-!
# Regions of functions

The code of every function that a program declares is a region of the code: a jump leads around it, it ends with a return,
and no jump goes into it or out of it. So a function is only ever entered by a call, at its first instruction, and only
left by a return.
-/

namespace Scriptlet

/-! ## Regions -/

/-- A function as it is declared. -/
structure Routine where
  name : String
  params : List String
  body : List Stmt

mutual

/-- The functions that a statement declares, in the order of their texts. -/
def Stmt.routines : Stmt → List Routine
  | .cond _ thenBlock elseBlock => Stmt.blockRoutines thenBlock ++ Stmt.blockRoutines elseBlock
  | .loop _ body => Stmt.blockRoutines body
  | .function name params body => ⟨name, params, body⟩ :: Stmt.blockRoutines body
  | .ret _ => []
  | .leave => []
  | .assign _ _ => []
  | .call _ _ => []

def Stmt.blockRoutines : List Stmt → List Routine
  | [] => []
  | s :: rest => s.routines ++ Stmt.blockRoutines rest

end

namespace Ir

open Interpreter (CodeAt)
open Code (liveBefore relocated)

/-- A function and the places of its code, from the first instruction to the return that ends it. -/
structure Region extends Routine where
  entry : Nat
  last : Nat

namespace Region

/-- A place of the code of a function. -/
def Holds (r : Region) (place : Nat) : Prop :=
  r.entry ≤ place ∧ place ≤ r.last

/-- The second region lies within the first one or behind it. -/
def Before (r r' : Region) : Prop :=
  (r.entry < r'.entry ∧ r'.last < r.last) ∨ r.last < r'.entry

/-- A jump leads around the region, and a return without value ends it. -/
structure Framed (code : Code) (r : Region) : Prop where
  le : r.entry ≤ r.last
  skipped : ∃ place, r.entry = place + 1 ∧ code[place]? = some (.goto (r.last + 1))
  ends : code[r.last]? = some (.ret missing)

/-- The entry, the code of the body and the return that ends it make up the region. -/
def Drafted (code : Code) (r : Region) : Prop :=
  ∃ temps around drafts names loopEnd, stmtsCode r.body false (r.entry + 1) ⟨temps, [], around⟩ = .ok (drafts, names)
    ∧ CodeAt code r.entry (.blank :: (drafts.map (Draft.close loopEnd) ++ [.ret missing]))
    ∧ r.last = r.entry + 1 + drafts.length

/-- The same for linear code, where the body has lost its blanks. -/
def Bodied (code : Code) (r : Region) : Prop :=
  ∃ place temps around drafts names loopEnd f,
    stmtsCode r.body false place ⟨temps, [], around⟩ = .ok (drafts, names)
      ∧ CodeAt code r.entry (relocated f (drafts.map (Draft.close loopEnd)) ++ [.ret missing])
      ∧ r.last = r.entry + (relocated f (drafts.map (Draft.close loopEnd))).length

end Region

/-- Two places that lie in the same regions, so also in the same innermost one or both in none. -/
def Together (regions : List Region) (place place' : Nat) : Prop :=
  ∀ r ∈ regions, r.Holds place ↔ r.Holds place'

section Together

variable {regions regions' : List Region} {a b c : Nat}

theorem Together.refl (regions : List Region) (a : Nat) : Together regions a a :=
  fun _ _ => Iff.rfl

theorem Together.trans (h : Together regions a b) (h' : Together regions b c) : Together regions a c :=
  fun r hr => (h r hr).trans (h' r hr)

theorem Together.append (h : Together regions a b) (h' : Together regions' a b) : Together (regions ++ regions') a b := by
  intro r hr
  rcases List.mem_append.1 hr with hr | hr
  · exact h r hr
  · exact h' r hr

theorem together_of_outside (ha : ∀ r ∈ regions, ¬ r.Holds a) (hb : ∀ r ∈ regions, ¬ r.Holds b) :
    Together regions a b :=
  fun r hr => iff_of_false (ha r hr) (hb r hr)

end Together

/-! ## Regions of blocks -/

/-- A function that was known before, or one that has its code in a region. -/
def Known (regions : List Region) (names : Names) (callee : String) (signature : Signature) : Prop :=
  names.find? callee = some signature
    ∨ ∃ r ∈ regions, r.name = callee ∧ r.params = signature.params ∧ r.entry = signature.entry

/-- What an instruction does not do: jump into a region or out of one, or go elsewhere than to the places from `start` up
to `stop` or to an exit; call a function that is not known; end the program. -/
structure Confined (exits : Nat → Prop) (names : Names) (start stop : Nat) (regions : List Region) (place : Nat)
    (i : Instruction) : Prop where
  jump : i.callSite? = none → ∀ t, i.target? = some t → Together regions place t ∧ (exits t ∨ start ≤ t ∧ t < stop)
  call : ∀ site t, i.callSite? = some site → site.target = some t →
    ∃ signature, Known regions names site.callee signature ∧ site.argc = signature.params.length ∧ t = signature.entry
  goesOn : i ≠ .stop

/-- The code from `start` up to `stop` is closed: its regions are apart, and jumps go to exits, which lie in none of
them, or stay in the same regions. -/
structure Zoned (code : Code) (exits : Nat → Prop) (names names' : Names) (start stop : Nat) (regions : List Region) :
    Prop where
  le : start ≤ stop
  within : ∀ r ∈ regions, start < r.entry ∧ r.last < stop
  apart : regions.Pairwise Region.Before
  framed : ∀ r ∈ regions, r.Framed code
  drafted : ∀ r ∈ regions, r.Drafted code
  clear : ∀ t, exits t → ∀ r ∈ regions, ¬ r.Holds t
  confined : ∀ place i, start ≤ place → place < stop → code[place]? = some i →
    Confined exits names start stop regions place i
  known : ∀ callee signature, names'.find? callee = some signature → Known regions names callee signature

section Zoned

variable {code : Code} {exits exits' : Nat → Prop} {names names₁ names' : Names} {start mid stop : Nat}
  {regions regions' : List Region}

theorem Confined.mono {start' stop' place : Nat} {i : Instruction} (h : Confined exits names start stop regions place i)
    (hknown : ∀ callee signature, Known regions names callee signature → Known regions' names' callee signature)
    (hjump : ∀ t, Together regions place t → exits t ∨ start ≤ t ∧ t < stop →
      Together regions' place t ∧ (exits' t ∨ start' ≤ t ∧ t < stop')) :
    Confined exits' names' start' stop' regions' place i := by
  refine ⟨fun hsite t ht => ?_, fun site t hsite ht => ?_, h.goesOn⟩
  · obtain ⟨htogether, hwhere⟩ := h.jump hsite t ht
    exact hjump t htogether hwhere
  · obtain ⟨signature, hsignature, hrest⟩ := h.call site t hsite ht
    exact ⟨signature, hknown _ _ hsignature, hrest⟩

theorem Zoned.outside (h : Zoned code exits names names' start stop regions) {t : Nat} (ht : t ≤ start ∨ stop ≤ t) :
    ∀ r ∈ regions, ¬ r.Holds t := by
  intro r hr hholds
  have hwithin := h.within r hr
  rw [Region.Holds] at hholds
  omega

theorem Zoned.append (h : Zoned code exits names names₁ start mid regions)
    (h' : Zoned code exits names₁ names' mid stop regions') :
    Zoned code exits names names' start stop (regions ++ regions') := by
  have hle := h.le
  have hle' := h'.le
  have hold : ∀ callee signature, Known regions names callee signature →
      Known (regions ++ regions') names callee signature := by
    rintro callee signature (hfind | ⟨r, hr, hknown⟩)
    · exact .inl hfind
    · exact .inr ⟨r, List.mem_append_left _ hr, hknown⟩
  have hnew : ∀ callee signature, Known regions' names₁ callee signature →
      Known (regions ++ regions') names callee signature := by
    rintro callee signature (hfind | ⟨r, hr, hknown⟩)
    · exact hold callee signature (h.known callee signature hfind)
    · exact .inr ⟨r, List.mem_append_right _ hr, hknown⟩
  refine ⟨hle.trans hle', ?_, ?_, ?_, ?_, ?_, ?_, fun callee signature hfind => ?_⟩
  · intro r hr
    rcases List.mem_append.1 hr with hr | hr
    · have hwithin := h.within r hr
      omega
    · have hwithin := h'.within r hr
      omega
  · refine List.pairwise_append.2 ⟨h.apart, h'.apart, fun r hr r' hr' => .inr ?_⟩
    exact (h.within r hr).2.trans (h'.within r' hr').1
  · exact List.forall_mem_append.2 ⟨h.framed, h'.framed⟩
  · exact List.forall_mem_append.2 ⟨h.drafted, h'.drafted⟩
  · exact fun t ht => List.forall_mem_append.2 ⟨h.clear t ht, h'.clear t ht⟩
  · intro place i hstart hstop hi
    rcases Nat.lt_or_ge place mid with hlt | hge
    · refine (h.confined place i hstart hlt hi).mono hold fun t htogether hwhere => ?_
      refine ⟨htogether.append (together_of_outside (h'.outside (.inl hlt.le)) ?_), hwhere.imp_right (by omega)⟩
      rcases hwhere with hexit | hin
      · exact h'.clear t hexit
      · exact h'.outside (.inl (by omega))
    · refine (h'.confined place i hge hstop hi).mono hnew fun t htogether hwhere => ?_
      refine ⟨(together_of_outside (h.outside (.inr hge)) ?_).append htogether, hwhere.imp_right (by omega)⟩
      rcases hwhere with hexit | hin
      · exact h.clear t hexit
      · exact h.outside (.inr hin.1)
  · exact hnew callee signature (h'.known callee signature hfind)

/-- Places within the code need not count as exits, and places at its ends may do so. -/
theorem Zoned.through (h : Zoned code exits names names' start stop regions)
    (hless : ∀ t, exits t → exits' t ∨ start ≤ t ∧ t < stop)
    (hmore : ∀ t, exits' t → exits t ∨ t ≤ start ∨ stop ≤ t) :
    Zoned code exits' names names' start stop regions := by
  refine ⟨h.le, h.within, h.apart, h.framed, h.drafted, fun t ht => ?_, fun place i hstart hstop hi => ?_, h.known⟩
  · rcases hmore t ht with hexit | hout
    · exact h.clear t hexit
    · exact h.outside hout
  · refine (h.confined place i hstart hstop hi).mono (fun _ _ => id) fun t htogether hwhere => ⟨htogether, ?_⟩
    rcases hwhere with hexit | hin
    · exact hless t hexit
    · exact .inr hin

/-- An instruction that jumps to exits only, calls what is found, and does not end the program. -/
structure Instruction.Proper (exits : Nat → Prop) (find : String → Option Signature) (i : Instruction) : Prop where
  jump : i.callSite? = none → ∀ t, i.target? = some t → exits t
  call : ∀ site, i.callSite? = some site → site.Follows find
  goesOn : i ≠ .stop

theorem Evaluates.proper {find : String → Option Signature} {mentions : List Mention} {i : Instruction}
    (h : Evaluates find mentions i) : i.Proper exits find := by
  cases h with
  | @compute x rhs hrhs =>
      cases rhs with
      | call site => exact absurd rfl (hrhs site)
      | _ => exact ⟨by simp [Instruction.target?], by simp [Instruction.callSite?], by simp⟩
  | pass => exact ⟨by simp [Instruction.target?], by simp [Instruction.callSite?], by simp⟩
  | call hsite hfollows _ =>
      refine ⟨by simp [hsite], fun site hother => ?_, ne_of_callSite? hsite rfl⟩
      rw [hsite, Option.some.injEq] at hother
      exact hother ▸ hfollows

theorem Instruction.Proper.of_jump {find : String → Option Signature} {i : Instruction} (hsite : i.callSite? = none)
    (hjump : ∀ t, i.target? = some t → exits t) (hstop : i ≠ .stop) : i.Proper exits find :=
  ⟨fun _ => hjump, by simp [hsite], hstop⟩

/-- Code without functions. -/
theorem zoned_of_codeAt {part : Code} (hcode : CodeAt code start part) (hnames : names'.find? = names.find?)
    (hpart : ∀ i ∈ part, i.Proper exits names.find?) : Zoned code exits names names' start (start + part.length) [] := by
  refine ⟨Nat.le_add_right _ _, by simp, .nil, by simp, by simp, by simp, fun place i hstart hstop hi => ?_, ?_⟩
  · obtain ⟨hjump, hcall, hgoesOn⟩ := hpart i (mem_of_codeAt hcode hstart hstop hi)
    refine ⟨fun hsite t ht => ⟨by simp [Together], .inl (hjump hsite t ht)⟩, fun site t hsite ht => ?_, hgoesOn⟩
    rcases hcall site hsite with ⟨-, hnone⟩ | ⟨signature, hfind, hargc, htarget⟩
    · rw [hnone] at ht
      cases ht
    · rw [htarget, Option.some.injEq] at ht
      exact ⟨signature, .inl hfind, hargc, ht.symm⟩
  · intro callee signature hfind
    rw [hnames] at hfind
    exact .inl hfind

theorem zoned_single {i : Instruction} (hi : code[start]? = some i) (hsite : i.callSite? = none)
    (hjump : ∀ t, i.target? = some t → exits t) (hstop : i ≠ .stop) :
    Zoned code exits names names start (start + 1) [] :=
  zoned_of_codeAt (codeAt_singleton hi) rfl (by simpa using Instruction.Proper.of_jump hsite hjump hstop)

/-- What is known in a body is known around it, but for the function itself. -/
theorem Known.of_declared {r : Region} {callee : String} {signature : Signature}
    (h : Known regions (names.declare r.name ⟨r.params, r.entry⟩).enter callee signature) :
    Known (r :: regions) names callee signature := by
  rcases h with hfind | ⟨r', hr', hknown⟩
  · rw [Names.find?_enter, Names.find?_declare] at hfind
    split at hfind
    · rename_i hcallee
      cases hfind
      exact .inr ⟨r, List.mem_cons_self, hcallee.symm, rfl, rfl⟩
    · exact .inl hfind
  · exact .inr ⟨r', List.mem_cons_of_mem _ hr', hknown⟩

/-- The region of a function, around those of its body. -/
theorem zoned_function {r : Region} {drafts : List Draft} {inner : Names} {loopEnd : Nat} (hentry : r.entry = start + 1)
    (hlast : r.last = r.entry + 1 + drafts.length)
    (hnames : names'.find? = (names.declare r.name ⟨r.params, r.entry⟩).find?)
    (hskip : code[start]? = some (.goto (r.last + 1))) (hblank : code[r.entry]? = some .blank)
    (hdrafts : BlockEmits r.body false (r.entry + 1) (names.declare r.name ⟨r.params, r.entry⟩).enter drafts inner)
    (hcode : CodeAt code (r.entry + 1) (drafts.map (Draft.close loopEnd)))
    (hbody : Zoned code (fun _ => False) (names.declare r.name ⟨r.params, r.entry⟩).enter inner (r.entry + 1) r.last
      regions)
    (hret : code[r.last]? = some (.ret missing)) (hblank' : code[r.last + 1]? = some .blank)
    (hexits : ∀ t, exits t → r.last + 2 ≤ t) : Zoned code exits names names' start (r.last + 2) (r :: regions) := by
  have houtside : ∀ t, t ≤ start ∨ r.last < t → ∀ r' ∈ r :: regions, ¬ r'.Holds t := by
    refine fun t ht => List.forall_mem_cons.2 ⟨fun hholds => ?_, hbody.outside (by omega)⟩
    rw [Region.Holds] at hholds
    omega
  refine ⟨by omega, ?_, ?_, ?_, ?_, fun t ht => houtside t (.inr ?_), fun place i hstart hstop hi => ?_, ?_⟩
  · refine List.forall_mem_cons.2 ⟨by omega, fun r' hr' => ?_⟩
    have hwithin := hbody.within r' hr'
    omega
  · refine List.pairwise_cons.2 ⟨fun r' hr' => .inl ?_, hbody.apart⟩
    have hwithin := hbody.within r' hr'
    omega
  · exact List.forall_mem_cons.2 ⟨⟨by omega, ⟨start, hentry, hskip⟩, hret⟩, hbody.framed⟩
  · refine List.forall_mem_cons.2 ⟨⟨_, _, drafts, inner, loopEnd, hdrafts.stmtsCode_eq, ?_, hlast⟩, hbody.drafted⟩
    refine codeAt_append (codeAt_singleton hblank) (codeAt_append hcode (codeAt_singleton ?_))
    rw [List.length_map, List.length_singleton, ← hlast]
    exact hret
  · have hle := hexits t ht
    omega
  · -- the instructions around the body, and those in it
    have hquiet : i.callSite? = none → i.target? = none → i ≠ .stop →
        Confined exits names start (r.last + 2) (r :: regions) place i :=
      fun hsite htarget hgoesOn => ⟨by simp [htarget], by simp [hsite], hgoesOn⟩
    rcases Nat.lt_trichotomy place r.entry with hlt | rfl | hgt
    · obtain rfl : place = start := by omega
      rw [hskip, Option.some.injEq] at hi
      subst hi
      refine ⟨fun _ t ht => ?_, by simp [Instruction.callSite?], by simp⟩
      obtain rfl : r.last + 1 = t := Option.some.inj ht
      exact ⟨together_of_outside (houtside _ (.inl (Nat.le_refl _))) (houtside _ (.inr (Nat.lt_succ_self _))),
        .inr (by omega)⟩
    · rw [hblank, Option.some.injEq] at hi
      subst hi
      exact hquiet rfl rfl (by simp)
    · rcases Nat.lt_trichotomy place r.last with hlt | rfl | hgt'
      · refine (hbody.confined place i hgt hlt hi).mono (fun _ _ => .of_declared) fun t htogether hwhere => ?_
        have hin : r.entry + 1 ≤ t ∧ t < r.last := hwhere.resolve_left id
        have hholds : r.Holds place ↔ r.Holds t := iff_of_true ⟨by omega, by omega⟩ ⟨by omega, by omega⟩
        exact ⟨List.forall_mem_cons.2 ⟨hholds, htogether⟩, .inr (by omega)⟩
      · rw [hret, Option.some.injEq] at hi
        subst hi
        exact hquiet rfl rfl (by simp)
      · obtain rfl : place = r.last + 1 := by omega
        rw [hblank', Option.some.injEq] at hi
        subst hi
        exact hquiet rfl rfl (by simp)
  · intro callee signature hfind
    rw [hnames] at hfind
    exact .of_declared (.inl hfind)

/-- The code of an expression and what follows it. -/
theorem zoned_expr {e : Expr} {part more : Code} {x : String} (h : names.Emits e part x names')
    (hcode : CodeAt code start (part ++ more)) (hmore : ∀ i ∈ more, i.Proper exits names.find?) :
    Zoned code exits names names' start (start + part.length + more.length) [] := by
  obtain ⟨hnames, hevaluates⟩ := h.evaluates
  have hzoned := zoned_of_codeAt hcode hnames
    (List.forall_mem_append.2 ⟨fun i hi => (hevaluates i hi).proper, hmore⟩)
  rwa [List.length_append, ← Nat.add_assoc] at hzoned

theorem Zoned.upTo {stop' : Nat} (h : Zoned code exits names names' start stop regions) (hstop : stop = stop') :
    Zoned code exits names names' start stop' regions :=
  hstop ▸ h

theorem zoned_cond {e : Expr} {part : Code} {x : String} {thenStop finish : Nat} {names₂ : Names} {exit : Option Nat}
    (h : names.Emits e part x names₁)
    (hcode : CodeAt code start (part ++ [.branch x (start + part.length + 2), .goto (thenStop + 1)]))
    (hthen : Zoned code (exit = some ·) names₁ names₂ (start + part.length + 2) thenStop regions)
    (hleave : code[thenStop]? = some (.goto finish))
    (helse : Zoned code (exit = some ·) names₂ names' (thenStop + 1) finish regions')
    (hblank : code[finish]? = some .blank) :
    Zoned code (exit = some ·) names names' start (finish + 1) (regions ++ regions') := by
  have hthenLe := hthen.le
  have helseLe := helse.le
  -- while the parts are put together, the places that they jump to count as exits
  let exits : Nat → Prop := fun t => exit = some t ∨ t = start + part.length + 2 ∨ t = thenStop + 1 ∨ t = finish
  have hjumps : ∀ i ∈ [Instruction.branch x (start + part.length + 2), .goto (thenStop + 1)],
      i.Proper exits names.find? := by
    simp only [List.forall_mem_cons]
    refine ⟨.of_jump rfl ?_ (by simp), .of_jump rfl ?_ (by simp), by simp⟩
    · rintro t ⟨⟩
      exact .inr (.inl rfl)
    · rintro t ⟨⟩
      exact .inr (.inr (.inl rfl))
  have hleave' : Zoned code exits names₂ names₂ thenStop (thenStop + 1) [] := by
    refine zoned_single hleave rfl ?_ (by simp)
    rintro t ⟨⟩
    exact .inr (.inr (.inr rfl))
  have hblank' : Zoned code exits names' names' finish (finish + 1) [] :=
    zoned_single hblank rfl (by simp [Instruction.target?]) (by simp)
  have hmore : ∀ a b, (a = start + part.length + 2 ∧ b = thenStop ∨ a = thenStop + 1 ∧ b = finish) → ∀ t, exits t →
      exit = some t ∨ t ≤ a ∨ b ≤ t := by
    rintro a b hab t (hexit | ht)
    · exact .inl hexit
    · exact .inr (by omega)
  have hwhole := ((((zoned_expr h hcode hjumps).append
    (hthen.through (fun t ht => .inl (.inl ht)) (hmore _ _ (.inl ⟨rfl, rfl⟩)))).append hleave').append
    (helse.through (fun t ht => .inl (.inl ht)) (hmore _ _ (.inr ⟨rfl, rfl⟩)))).append hblank'
  rw [List.nil_append, List.append_nil, List.append_nil] at hwhole
  refine hwhole.through ?_ fun t ht => .inl (.inl ht)
  rintro t (hexit | ht)
  · exact .inl hexit
  · exact .inr (by omega)

theorem zoned_loop {e : Expr} {part : Code} {x : String} {testStart : Nat} {exit : Option Nat}
    (hskip : code[start]? = some (.goto testStart))
    (hbody : Zoned code (some (testStart + part.length + 1) = some ·) names names₁ (start + 1) testStart regions)
    (h : names₁.Emits e part x names')
    (hcode : CodeAt code testStart (part ++ [.branch x (start + 1), .blank]))
    (hexit : ∀ t, exit = some t → testStart + part.length + 2 ≤ t) :
    Zoned code (exit = some ·) names names' start (testStart + part.length + 2) regions := by
  have hbodyLe := hbody.le
  let exits : Nat → Prop := fun t => exit = some t ∨ t = start + 1 ∨ t = testStart ∨ t = testStart + part.length + 1
  have hskip' : Zoned code exits names names start (start + 1) [] := by
    refine zoned_single hskip rfl ?_ (by simp)
    rintro t ⟨⟩
    exact .inr (.inr (.inl rfl))
  have hjumps : ∀ i ∈ [Instruction.branch x (start + 1), .blank], i.Proper exits names₁.find? := by
    simp only [List.forall_mem_cons]
    refine ⟨.of_jump rfl ?_ (by simp), .of_jump rfl (by simp [Instruction.target?]) (by simp), by simp⟩
    rintro t ⟨⟩
    exact .inr (.inl rfl)
  have hbody' : Zoned code exits names names₁ (start + 1) testStart regions := by
    refine hbody.through ?_ ?_
    · rintro t ⟨⟩
      exact .inl (.inr (.inr (.inr rfl)))
    · rintro t (ht | ht)
      · have hle := hexit t ht
        exact .inr (by omega)
      · exact .inr (by omega)
  have hwhole := (hskip'.append hbody').append (zoned_expr h hcode hjumps)
  rw [List.nil_append, List.append_nil] at hwhole
  refine hwhole.through ?_ fun t ht => .inl (.inl ht)
  rintro t (hexit | ht)
  · exact .inl hexit
  · exact .inr ⟨by omega, by simp only [List.length_cons, List.length_nil]; omega⟩

/-- The code of statements is closed, and its regions are those of the functions that they declare. -/
theorem zoned_of_blockAt {exit : Option Nat} {stmts : List Stmt} (h : BlockAt code exit stmts start stop names names')
    (hexit : ∀ t, exit = some t → stop ≤ t) :
    ∃ regions, regions.map Region.toRoutine = Stmt.blockRoutines stmts
      ∧ Zoned code (exit = some ·) names names' start stop regions := by
  induction h with
  | @nil exit start names =>
      have hnone : CodeAt code start [] := fun k i hk => by cases hk
      exact ⟨[], rfl, zoned_of_codeAt hnone rfl (by simp)⟩
  | @blank _ _ _ stop _ _ hblock hblank ih =>
      obtain ⟨regions, hregions, hzoned⟩ := ih fun t ht => (Nat.le_succ _).trans (hexit t ht)
      have hzoned' := hzoned.append (zoned_single hblank rfl (by simp [Instruction.target?]) (by simp))
      rw [List.append_nil] at hzoned'
      exact ⟨regions, hregions, hzoned'⟩
  | @cons _ s rest _ mid _ _ _ _ hfirst hrest ih ih' =>
      obtain ⟨regions, hregions, hzoned⟩ := ih fun t ht => hrest.le.trans (hexit t ht)
      obtain ⟨regions', hregions', hzoned'⟩ := ih' hexit
      refine ⟨regions ++ regions', ?_, hzoned.append hzoned'⟩
      rw [List.map_append, hregions, hregions', Stmt.blockRoutines, Stmt.blockRoutines, List.append_nil]
      rfl
  | cond htest hcode hthen hleave helse hblank ih ih' =>
      obtain ⟨regions, hregions, hzoned⟩ := ih fun t ht => by have := hexit t ht; have := helse.le; omega
      obtain ⟨regions', hregions', hzoned'⟩ := ih' fun t ht => (Nat.le_succ _).trans (hexit t ht)
      refine ⟨regions ++ regions', ?_, zoned_cond htest hcode hzoned hleave hzoned' hblank⟩
      rw [List.map_append, hregions, hregions']
      simp [Stmt.blockRoutines, Stmt.routines]
  | loop hskip hbody htest hcode ih =>
      obtain ⟨regions, hregions, hzoned⟩ := ih fun t ht => by cases ht; omega
      refine ⟨regions, ?_, zoned_loop hskip hzoned htest hcode hexit⟩
      rw [hregions]
      simp [Stmt.blockRoutines, Stmt.routines]
  | retNone hret => exact ⟨[], rfl, zoned_single hret rfl (by simp [Instruction.target?]) (by simp)⟩
  | ret hvalue hcode =>
      refine ⟨[], rfl, zoned_expr hvalue hcode ?_⟩
      simpa using Instruction.Proper.of_jump rfl (by simp [Instruction.target?]) (by simp)
  | leave hgoto =>
      refine ⟨[], rfl, zoned_single hgoto rfl ?_ (by simp)⟩
      rintro t ⟨⟩
      rfl
  | assign hvalue hcode =>
      refine ⟨[], rfl, zoned_expr hvalue hcode ?_⟩
      simpa using Instruction.Proper.of_jump rfl (by simp [Instruction.target?]) (by simp)
  | @function exit name params body start loopEnd drafts names inner hskip hentry hdrafts hcode hbody hret hblank ih =>
      obtain ⟨regions, hregions, hzoned⟩ := ih (by simp)
      let r : Region := ⟨⟨name, params, body⟩, start + 1, start + 2 + drafts.length⟩
      refine ⟨r :: regions, ?_, ?_⟩
      · simp [Stmt.blockRoutines, Stmt.routines, hregions, r]
      · have hinner : Zoned code (fun _ => False) _ inner (start + 2) (start + 2 + drafts.length) regions :=
          hzoned.through (by simp) (by simp)
        exact zoned_function (r := r) rfl rfl rfl hskip hentry hdrafts hcode hinner hret hblank hexit
  | @call _ callee args start temps part params xs site names hargs hcall hcode =>
      have hnames : ({ names with temps } : Names).find? = names.find? := rfl
      refine ⟨[], rfl, (zoned_of_codeAt hcode hnames ?_).upTo ?_⟩
      · refine List.forall_mem_append.2 ⟨fun i hi => (evaluates_args hargs i hi).proper, fun i hi => ?_⟩
        exact (evaluates_call hcall (List.mem_singleton_self _) rfl i hi).proper
      · simp only [List.length_append, List.length_singleton]
        omega

end Zoned

/-! ## Regions of linear code -/

/-- Instructions after which the next one may follow. -/
def Instruction.fallsThrough : Instruction → Bool
  | goto _ => false
  | ret _ => false
  | stop => false
  | _ => true

/-- The regions of functions are closed: they are nested or disjoint; a jump leads around each of them, and each is the code
of a body with a return at its end; jumps stay in the same regions, and so does what follows an instruction; a call of a
function of the program goes to the first instruction of a region of that name; the program does not end in a region. -/
structure Closed (code : Code) (regions : List Region) : Prop where
  apart : regions.Pairwise Region.Before
  framed : ∀ r ∈ regions, r.Framed code
  bodied : ∀ r ∈ regions, r.Bodied code
  jump : ∀ place i t, code[place]? = some i → i.callSite? = none → i.target? = some t → Together regions place t
  next : ∀ place i, code[place]? = some i → i.fallsThrough = true → Together regions place (place + 1)
  call : ∀ (place : Nat) i site t, code[place]? = some i → i.callSite? = some site → site.target = some t →
    ∃ r ∈ regions, r.name = site.callee ∧ r.params.length = site.argc ∧ r.entry = t
  stop : ∀ r ∈ regions, ∀ place, r.Holds place → code[place]? ≠ some .stop

/-- The region of a function when blanks are dropped. -/
def Region.moved (r : Region) (code : Code) : Region :=
  { r with entry := code.liveBefore r.entry, last := code.liveBefore r.last }

section Linear

variable {code : Code} {r r' : Region} {regions : List Region}

theorem liveBefore_succ_of_live {place : Nat} {i : Instruction} (hi : code[place]? = some i) (hlive : i.live = true) :
    code.liveBefore (place + 1) = code.liveBefore place + 1 := by
  rw [liveBefore_succ hi, List.countP_singleton, if_pos hlive]

/-- Instructions that are kept stand before a region and at its end. So the places in it are those that are in it after
the blanks are gone. -/
theorem Region.Framed.holds_moved (h : r.Framed code) (place : Nat) :
    (r.moved code).Holds (code.liveBefore place) ↔ r.Holds place := by
  obtain ⟨before, hbefore, hskip⟩ := h.skipped
  have hentry := liveBefore_succ_of_live hskip rfl
  have hlast := liveBefore_succ_of_live h.ends rfl
  rw [← hbefore] at hentry
  simp only [Holds, moved]
  refine and_congr ⟨fun hle => ?_, fun hle => code.liveBefore_mono hle⟩
    ⟨fun hle => ?_, fun hle => code.liveBefore_mono hle⟩
  · by_contra hlt
    have hmono := code.liveBefore_mono (show place ≤ before by omega)
    omega
  · by_contra hlt
    have hmono := code.liveBefore_mono (show r.last + 1 ≤ place by omega)
    omega

theorem Region.Before.moved (h : r.Framed code) (h' : r'.Framed code) (hbefore : r.Before r') :
    (r.moved code).Before (r'.moved code) := by
  obtain ⟨place, hplace, hskip⟩ := h'.skipped
  have hentry := liveBefore_succ_of_live hskip rfl
  have hlast := liveBefore_succ_of_live h.ends rfl
  have hlast' := liveBefore_succ_of_live h'.ends rfl
  rw [← hplace] at hentry
  rcases hbefore with ⟨hlt, hlt'⟩ | hlt
  · have hmono := code.liveBefore_mono (show r.entry ≤ place by omega)
    have hmono' := code.liveBefore_mono (show r'.last + 1 ≤ r.last by omega)
    exact .inl ⟨by simp only [Region.moved]; omega, by simp only [Region.moved]; omega⟩
  · have hmono := code.liveBefore_mono (show r.last + 1 ≤ r'.entry by omega)
    exact .inr (by simp only [Region.moved]; omega)

theorem Together.moved (hframed : ∀ r ∈ regions, r.Framed code) {place t : Nat} (h : Together regions place t) :
    Together (regions.map (·.moved code)) (code.liveBefore place) (code.liveBefore t) := by
  intro r hr
  obtain ⟨r, hmem, rfl⟩ := List.mem_map.1 hr
  rw [(hframed r hmem).holds_moved, (hframed r hmem).holds_moved]
  exact h r hmem

theorem codeAt_relocated (f : Nat → Nat) {start : Nat} {part : Code} (h : CodeAt code start part) :
    CodeAt (code.relocated f) (code.liveBefore start) (relocated f part) := by
  intro k kept hk
  obtain ⟨place, i, hi, hlive, rfl, rfl⟩ := Code.exists_of_getElem?_relocated hk
  have hplace : code.liveBefore (start + place) = code.liveBefore start + part.liveBefore place := by
    have hfront : CodeAt code start (part.take place) := by
      rw [← List.take_append_drop place part] at h
      exact h.left
    have hlength : (part.take place).length = place := List.length_take_of_le (lt_of_getElem? hi).le
    have hcount := liveBefore_of_codeAt hfront
    rwa [hlength] at hcount
  rw [← hplace]
  exact Code.getElem?_relocated f (h place i hi) hlive

theorem Region.Framed.moved (h : r.Framed code) : (r.moved code).Framed (code.relocated code.liveBefore) := by
  obtain ⟨before, hbefore, hskip⟩ := h.skipped
  refine ⟨code.liveBefore_mono h.le, ⟨code.liveBefore before, ?_, ?_⟩, Code.getElem?_relocated _ h.ends rfl⟩
  · rw [← liveBefore_succ_of_live hskip rfl, ← hbefore]
    rfl
  · have hlast : (r.moved code).last + 1 = code.liveBefore (r.last + 1) := (liveBefore_succ_of_live h.ends rfl).symm
    rw [hlast]
    exact Code.getElem?_relocated _ hskip rfl

theorem Region.Drafted.moved (h : r.Drafted code) : (r.moved code).Bodied (code.relocated code.liveBefore) := by
  obtain ⟨temps, around, drafts, names, loopEnd, hdrafts, hcode, hlast⟩ := h
  refine ⟨_, temps, around, drafts, names, loopEnd, code.liveBefore, hdrafts, ?_, ?_⟩
  · have hmoved := codeAt_relocated code.liveBefore hcode
    rw [← List.cons_append, Code.relocated_append] at hmoved
    exact hmoved
  · rw [← List.cons_append] at hcode
    have hcount := liveBefore_of_codeAt hcode.left
    rw [List.length_cons, List.length_map] at hcount
    rw [Code.length_relocated]
    show code.liveBefore r.last = code.liveBefore r.entry + _
    rw [hlast, Nat.add_assoc, Nat.add_comm 1, hcount]
    rfl

/-- What follows an instruction lies in the same regions, since a jump stands before each region and a return at its end. -/
theorem together_next (hframed : ∀ r ∈ regions, r.Framed code) {place : Nat} {i : Instruction}
    (hi : code[place]? = some i) (hfalls : i.fallsThrough = true) : Together regions place (place + 1) := by
  intro r hr
  obtain ⟨hle, ⟨before, hbefore, hskip⟩, hends⟩ := hframed r hr
  have hentry : place ≠ before := by
    rintro rfl
    rw [hskip] at hi
    cases hi
    cases hfalls
  have hlast : place ≠ r.last := by
    rintro rfl
    rw [hends] at hi
    cases hi
    cases hfalls
  simp only [Region.Holds]
  omega

theorem Instruction.eq_stop_of_mapTarget {f : Nat → Nat} {i : Instruction} (h : i.mapTarget f = .stop) : i = .stop := by
  cases i with
  | assign x rhs => cases rhs <;> cases h
  | stop => rfl
  | _ => cases h

/-- The linear code of a program is closed, and its regions are those of the functions that the program declares. -/
theorem closed_of_generate {program : List Stmt} {linear : Code} (h : generate program = .ok linear) :
    ∃ regions, regions.map Region.toRoutine = Stmt.blockRoutines program ∧ Closed linear regions := by
  obtain ⟨code, harena, hlinear⟩ := exists_arena_of_generate h
  obtain ⟨size, drafts, names, -, hblock, hlength, hstop⟩ := blockAt_of_arena harena
  obtain ⟨regions, hroutines, hzoned⟩ := zoned_of_blockAt hblock (by simp)
  obtain rfl : linear = code.relocated code.liveBefore := (Code.linearize_eq hlinear).1
  -- every instruction but the last one is confined
  have hconfined : ∀ place i, code[place]? = some i →
      i = .stop ∨ Confined (none = some ·) .initial 0 size regions place i := by
    intro place i hi
    rcases lt_or_eq_stop hlength hstop hi with hlt | ⟨-, rfl⟩
    · exact .inr (hzoned.confined place i (Nat.zero_le _) hlt hi)
    · exact .inl rfl
  have hframed : ∀ r ∈ regions.map (·.moved code), r.Framed (code.relocated code.liveBefore) :=
    List.forall_mem_map.2 fun r hr => (hzoned.framed r hr).moved
  refine ⟨regions.map (·.moved code), ?_, ?_, hframed, ?_, ?_, ?_, ?_, ?_⟩
  · rw [List.map_map]
    exact hroutines
  · refine List.pairwise_map.2 (hzoned.apart.imp_of_mem fun hr hr' hbefore => ?_)
    exact hbefore.moved (hzoned.framed _ hr) (hzoned.framed _ hr')
  · exact List.forall_mem_map.2 fun r hr => (hzoned.drafted r hr).moved
  · intro n kept t hkept hsite htarget
    obtain ⟨place, i, hi, -, rfl, rfl⟩ := Code.exists_of_getElem?_relocated hkept
    rw [Instruction.callSite?_mapTarget, Option.map_eq_none_iff] at hsite
    rw [Instruction.target?_mapTarget, Option.map_eq_some_iff] at htarget
    obtain ⟨t, ht, rfl⟩ := htarget
    rcases hconfined place i hi with rfl | hin
    · cases ht
    · exact (hin.jump hsite t ht).1.moved hzoned.framed
  · exact fun n kept hkept hfalls => together_next hframed hkept hfalls
  · intro n kept site t hkept hsite htarget
    obtain ⟨place, i, hi, -, rfl, rfl⟩ := Code.exists_of_getElem?_relocated hkept
    rw [Instruction.callSite?_mapTarget, Option.map_eq_some_iff] at hsite
    obtain ⟨site, hsite, rfl⟩ := hsite
    obtain ⟨t, ht, rfl⟩ := Option.map_eq_some_iff.1 htarget
    rcases hconfined place i hi with rfl | hin
    · cases hsite
    · obtain ⟨signature, hknown, hargc, rfl⟩ := hin.call site t hsite ht
      obtain ⟨r, hr, hname, hparams, hentry⟩ := hknown.resolve_left (by simp [Names.find?, Names.initial])
      refine ⟨r.moved code, List.mem_map_of_mem hr, hname, ?_, congrArg code.liveBefore hentry⟩
      exact (congrArg List.length hparams).trans hargc.symm
  · intro r hr n hholds hkept
    obtain ⟨r, hmem, rfl⟩ := List.mem_map.1 hr
    obtain ⟨place, i, hi, -, rfl, hi'⟩ := Code.exists_of_getElem?_relocated hkept
    rw [(hzoned.framed r hmem).holds_moved] at hholds
    have hlt : place < size := hholds.2.trans_lt (hzoned.within r hmem).2
    have hgoesOn := (hzoned.confined place i (Nat.zero_le _) hlt hi).goesOn
    exact hgoesOn (Instruction.eq_stop_of_mapTarget hi')

end Linear

/-! ## Control -/

/-- How control moves in a step: it stays in the same regions; a call enters a region, at its first instruction, and waits;
or a return goes back to behind the call that waits. -/
inductive Moves {σ : Type} (code : Code) (regions : List Region) (s s' : State σ) : Prop
  | stay : s'.callers = s.callers → Together regions s.place s'.place → Moves code regions s s'
  | enter {r : Region} {i : Instruction} {site : CallSite} {caller : Activation} : code[s.place]? = some i →
      i.callSite? = some site → r ∈ regions → r.name = site.callee → s'.place = r.entry →
      s'.callers = (s.place, caller) :: s.callers → Moves code regions s s'
  | leave {x : String} {place : Nat} {caller : Activation} : code[s.place]? = some (.ret x) →
      s.callers = (place, caller) :: s'.callers → s'.place = place + 1 → Together regions place s'.place →
      Moves code regions s s'

/-- Every activation is in the regions where it was entered: the first one at the start, the others at the first instruction
of a region. -/
inductive Resident (regions : List Region) : Nat → List Nat → Prop
  | top {place : Nat} : Together regions 0 place → Resident regions place []
  | inside {r : Region} {place caller : Nat} {callers : List Nat} : r ∈ regions → Together regions r.entry place →
      Resident regions caller callers → Resident regions place (caller :: callers)

section Control

variable {σ : Type} {code : Code} {regions : List Region} {literal : Value → Value} {limit : Nat} {s s' : State σ}

@[simp]
theorem State.place_deliver (s : State σ) (destination : Option String) (v : Value) :
    (s.deliver destination v).place = s.place + 1 := by
  cases destination <;> rfl

theorem State.place_of_assign {x : String} {r : Except RuntimeError Value} (h : s.assign x r = .more s') :
    s'.callers = s.callers ∧ s'.place = s.place + 1 := by
  cases r with
  | error e => cases h
  | ok v =>
      cases h
      exact ⟨s.callers_deliver _ _, s.place_deliver _ _⟩

/-- A call goes to the code of a function and waits, or it is done at once. -/
theorem State.place_of_call [Streams σ] {destination : Option String} {site : CallSite}
    (h : s.call limit destination site = some (.more s')) :
    (∃ caller, site.target = some s'.place ∧ s'.callers = (s.place, caller) :: s.callers)
      ∨ s'.callers = s.callers ∧ s'.place = s.place + 1 := by
  rw [State.call] at h
  split at h
  · rename_i entry htarget
    split at h
    · cases h
    · split at h
      · obtain ⟨args, -, hargs⟩ := Option.map_eq_some_iff.1 h
        cases hargs
        exact .inl ⟨_, htarget, rfl⟩
      · cases h
  · split at h
    · rw [State.callBuiltin] at h
      split at h
      · cases h
      · split at h
        · cases h
          exact .inr ⟨State.callers_deliver _ _ _, State.place_deliver _ _ _⟩
        · cases h
    · cases h

theorem State.place_of_ret {v : Value} (h : s.ret code v = some (.more s')) :
    ∃ place caller i site, s.callers = (place, caller) :: s'.callers ∧ s'.place = place + 1 ∧ code[place]? = some i
      ∧ i.callSite? = some site := by
  rw [State.ret] at h
  split at h
  · cases h
  · rename_i place caller callers hcallers
    split at h
    · split at h
      · rename_i i hi
        split at h
        · rename_i hsite
          obtain ⟨site, hsite⟩ := Option.isSome_iff_exists.1 hsite
          cases h
          exact ⟨place, caller, i, site, by rw [State.callers_deliver, hcallers], State.place_deliver _ _ _, hi, hsite⟩
        · cases h
      · cases h
    · cases h

theorem Instruction.fallsThrough_of_callSite? {i : Instruction} {site : CallSite} (h : i.callSite? = some site) :
    i.fallsThrough = true := by
  cases i <;> first | rfl | cases h

theorem Closed.moves [Streams σ] (hcode : Closed code regions) (h : step literal code limit s = some (.more s')) :
    Moves code regions s s' := by
  rw [step] at h
  split at h
  case h_2 => cases h
  rename_i i hi
  have hnext : i.fallsThrough = true → s'.callers = s.callers ∧ s'.place = s.place + 1 → Moves code regions s s' := by
    rintro hfalls ⟨hcallers, hplace⟩
    exact .stay hcallers (hplace ▸ hcode.next s.place i hi hfalls)
  have hcall : ∀ site, i.callSite? = some site → s.call limit i.binds? site = some (.more s') →
      Moves code regions s s' := by
    intro site hsite hr
    rcases State.place_of_call hr with ⟨caller, htarget, hcallers⟩ | hsame
    · obtain ⟨r, hr, hname, -, hentry⟩ := hcode.call s.place i site _ hi hsite htarget
      exact .enter hi hsite hr hname hentry.symm hcallers
    · exact hnext (Instruction.fallsThrough_of_callSite? hsite) hsame
  cases i with
  | goto t =>
      cases h
      exact .stay rfl (hcode.jump s.place _ t hi rfl rfl)
  | branch x t =>
      cases h
      refine .stay rfl ?_
      show Together regions s.place (if _ then t else s.place + 1)
      split
      · exact hcode.jump s.place _ t hi rfl rfl
      · exact hcode.next s.place _ hi rfl
  | assign x rhs =>
      cases rhs with
      | call site => exact hcall site rfl h
      | _ => exact hnext rfl (State.place_of_assign (Option.some.inj h))
  | ret x =>
      obtain ⟨place, caller, j, site, hcallers, hplace, hj, hsite⟩ := State.place_of_ret h
      exact .leave hi hcallers hplace (hplace ▸ hcode.next place j hj (Instruction.fallsThrough_of_callSite? hsite))
  | param x name =>
      cases h
      exact hnext rfl ⟨rfl, rfl⟩
  | call site => exact hcall site rfl h
  | stop => cases h
  | blank =>
      cases h
      exact hnext rfl ⟨rfl, rfl⟩

theorem Resident.together {place place' : Nat} {callers : List Nat} (h : Resident regions place callers)
    (htogether : Together regions place place') : Resident regions place' callers := by
  cases h with
  | top h => exact .top (h.trans htogether)
  | inside hr h hcaller => exact .inside hr (h.trans htogether) hcaller

theorem Moves.resident (h : Moves code regions s s') (hs : Resident regions s.place (s.callers.map Prod.fst)) :
    Resident regions s'.place (s'.callers.map Prod.fst) := by
  cases h with
  | stay hcallers htogether =>
      rw [hcallers]
      exact hs.together htogether
  | enter _ _ hr _ hplace hcallers =>
      rw [hplace, hcallers]
      exact .inside hr (.refl regions _) hs
  | leave _ hcallers _ htogether =>
      rw [hcallers, List.map_cons] at hs
      cases hs with
      | inside _ _ hcaller => exact hcaller.together htogether

end Control

/-- The functions of a program are closed regions of its linear code, one for each declaration. So in every step control
stays where it is, enters a function by a call of its first instruction, or leaves it by a return, and in every run all
activations stay in the regions where they were entered. -/
theorem functions_are_closed_regions {program : List Stmt} {code : Code} (h : generate program = .ok code) :
    ∃ regions, regions.map Region.toRoutine = Stmt.blockRoutines program ∧ Closed code regions
      ∧ ∀ (σ : Type) [Streams σ] (literal : Value → Value) (limit : Nat),
        (∀ s s' : State σ, step literal code limit s = some (.more s') → Moves code regions s s')
        ∧ ∀ (console : σ) s, Relation.ReflTransGen (fun s s' => step literal code limit s = some (.more s')) (.initial console) s →
          Resident regions s.place (s.callers.map Prod.fst) := by
  obtain ⟨regions, hroutines, hclosed⟩ := closed_of_generate h
  refine ⟨regions, hroutines, hclosed, fun σ _ literal limit => ⟨fun s s' hstep => hclosed.moves hstep, ?_⟩⟩
  intro console s hsteps
  induction hsteps with
  | refl => exact .top (.refl regions 0)
  | tail _ hstep ih => exact (hclosed.moves hstep).resident ih

/-- A function in a loop, whose own loop ends where its body does and has a function and a break in it. -/
def enclosed : List Stmt :=
  [.loop (.name "a")
    [.function "f" ["x"] [.loop (.name "x") [.function "g" [] [], .cond (.call "g" []) [.leave] []]],
      .call "f" [.literal .number "1"],
      .leave]]

theorem functions_are_closed_regions_enclosed :
    ∃ code regions, generate enclosed = .ok code ∧ regions.map (·.name) = ["f", "g"] ∧ Closed code regions
      ∧ (∃ r ∈ regions, r.name = "f" ∧ r.entry = 2) ∧ (∃ r ∈ regions, r.name = "g" ∧ r.entry = 4)
      ∧ code[8]? = some (.goto 12) ∧ Together regions 8 12
      ∧ ∀ (console : Console) s, Relation.ReflTransGen (fun s s' => step id code 100 s = some (.more s')) (.initial console) s →
        Resident regions s.place (s.callers.map Prod.fst) := by
  have hgenerate : ∃ code, generate enclosed = .ok code ∧ code[8]? = some (.goto 12)
      ∧ code[5]? = some (.assign "__tmp0" (.call ⟨"g", 0, some 4⟩)) ∧ code[15]? = some (.call ⟨"f", 1, some 2⟩) :=
    ⟨_, rfl, rfl, rfl, rfl⟩
  obtain ⟨code, hcode, hleave, hg, hf⟩ := hgenerate
  obtain ⟨regions, hroutines, hclosed, hcontrol⟩ := functions_are_closed_regions hcode
  have hnames := congrArg (List.map Routine.name) hroutines
  rw [List.map_map] at hnames
  obtain ⟨r, hr, hname, -, hentry⟩ := hclosed.call 15 _ _ 2 hf rfl rfl
  obtain ⟨r', hr', hname', -, hentry'⟩ := hclosed.call 5 _ _ 4 hg rfl rfl
  exact ⟨code, regions, hcode, hnames, hclosed, ⟨r, hr, hname, hentry⟩, ⟨r', hr', hname', hentry'⟩, hleave,
    hclosed.jump 8 _ 12 hleave rfl rfl, (hcontrol Console id 100).2⟩

end Ir

end Scriptlet
