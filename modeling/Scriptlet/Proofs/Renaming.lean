import Mathlib.Tactic
import Scriptlet.Proofs.Bytecode.Assembly
import Scriptlet.Proofs.Ir.Ledger
import Scriptlet.Proofs.Ir.Renaming
import Scriptlet.Proofs.Operands

/-!
# Operations of a renamed program

How variables and functions are called does not show in the operations of a program: variables are slots, numbered in
the order of their first binding, and functions are addresses. Only builtins are called by name. So renaming all
variables apart, and all functions apart, leaves the operations as they are.

A renaming is given on the names of one program only. It is extended to a permutation of all texts that leaves alone
what is neither an old nor a new name. Under a permutation, scopes and slots keep their order whatever names occur.
-/

namespace Scriptlet

open Bytecode
open Ir (Code Instruction CallSite Carries)

/-! ## Slots -/

section Slots

variable {ρ : String → String}

theorem eraseDups_map (hρ : Function.Injective ρ) (names : List String) :
    (names.map ρ).eraseDups = names.eraseDups.map ρ := by
  induction names using List.reverseRecOn with
  | nil => rfl
  | append_singleton names x ih =>
      rw [List.map_append, List.map_singleton, eraseDups_concat, eraseDups_concat, ih, List.map_append]
      by_cases hx : x ∈ names <;> simp [hx, hρ.eq_iff]

theorem idxOf_map (hρ : Function.Injective ρ) (slots : List String) (x : String) :
    (slots.map ρ).idxOf (ρ x) = slots.idxOf x := by
  induction slots with
  | nil => rfl
  | cons y slots ih => by_cases hy : y = x <;> simp [hy, hρ.eq_iff, ih]

theorem slotNames_rename (hρ : Function.Injective ρ) (f : String → String) (code : Code) :
    slotNames (code.map (Instruction.rename ρ f)) = (slotNames code).map ρ := by
  rw [slotNames, slotNames, ← eraseDups_map hρ, List.filterMap_map, List.map_filterMap]
  exact congrArg (fun p => (code.filterMap p).eraseDups) (funext fun i => Instruction.binds?_rename ρ f i)

end Slots

/-! ## Operations -/

/-- Variables are renamed apart, to variables. Constants stay as they are. -/
structure RenamesVariables (ρ : String → String) : Prop where
  injective : Function.Injective ρ
  isVariable : ∀ x, Bytecode.isVariable x = true → Bytecode.isVariable (ρ x) = true
  fixed : ∀ x, Bytecode.isVariable x = false → ρ x = x

/-- A builtin keeps its name. -/
def KeepsBuiltin (f : String → String) (site : CallSite) : Prop :=
  site.target = none → f site.callee = site.callee

section Operations

variable {ρ f : String → String}

theorem operandOp_rename (hρ : RenamesVariables ρ) (slots : List String) (x : String) :
    operandOp (slots.map ρ) (ρ x) = operandOp slots x := by
  cases hx : isVariable x with
  | true =>
      simp only [operandOp_variable hx, operandOp_variable (hρ.isVariable x hx), idxOf_map hρ.injective,
        List.mem_map_of_injective hρ.injective]
  | false =>
      rw [hρ.fixed x hx, operandOp, operandOp]
      simp only [hx, Bool.false_eq_true, if_false]

theorem slotOp_rename (hρ : RenamesVariables ρ) (slots : List String) (x : String) :
    slotOp (slots.map ρ) (ρ x) = slotOp slots x := by
  rw [slotOp, slotOp, idxOf_map hρ.injective]

theorem callOps_rename (address : Nat → Nat) {site : CallSite} (h : KeepsBuiltin f site) :
    callOps address (site.rename f) = callOps address site := by
  rw [callOps, callOps, Ir.CallSite.rename]
  cases htarget : site.target with
  | some t => rfl
  | none => rw [h htarget]

theorem instructionOps_rename (hρ : RenamesVariables ρ) (slots : List String) (address : Nat → Nat)
    {i : Instruction} (h : ∀ site, i.callSite? = some site → KeepsBuiltin f site) :
    instructionOps (slots.map ρ) address (i.rename ρ f) = instructionOps slots address i := by
  have hoperand := operandOp_rename hρ slots
  have hslot := slotOp_rename hρ slots
  cases i with
  | assign x rhs =>
      cases rhs with
      | call site =>
          simp [Instruction.rename, Ir.Rhs.rename, instructionOps, hslot, callOps_rename address (h site rfl)]
      | _ => simp [Instruction.rename, Ir.Rhs.rename, instructionOps, hslot, hoperand]
  | param x name => cases name <;> simp [Instruction.rename, instructionOps, hslot, hoperand]
  | call site => simp [Instruction.rename, instructionOps, callOps_rename address (h site rfl)]
  | _ => simp [Instruction.rename, instructionOps, hoperand]

theorem width_rename (ρ f : String → String) (i : Instruction) : width (i.rename ρ f) = width i := by
  cases i with
  | assign x rhs => cases rhs <;> rfl
  | _ => rfl

theorem address_rename (ρ f : String → String) (code : Code) :
    address (code.map (Instruction.rename ρ f)) = address code := by
  have hwidth : width ∘ Instruction.rename ρ f = width := funext (width_rename ρ f)
  funext place
  rw [address, address, ← List.map_take, List.map_map, hwidth]

theorem lower_rename (hρ : RenamesVariables ρ) {code : Code} {ops : List Op}
    (hf : ∀ i ∈ code, ∀ site, i.callSite? = some site → KeepsBuiltin f site)
    (h : lower code = .ok ops) : lower (code.map (Instruction.rename ρ f)) = .ok ops := by
  obtain ⟨hbelow, rfl⟩ := lower_eq_ok_iff.1 h
  have hbelow' : Ir.Code.TargetsBelow code.length (code.map (Instruction.rename ρ f)) := by
    intro i hi t ht
    obtain ⟨i, hmem, rfl⟩ := List.mem_map.1 hi
    rw [Instruction.target?_rename] at ht
    exact hbelow i hmem t ht
  have hops : ∀ i ∈ code, instructionOps ((slotNames code).map ρ) (address code) (i.rename ρ f)
      = instructionOps (slotNames code) (address code) i :=
    fun i hi => instructionOps_rename hρ _ _ (hf i hi)
  rw [lower_eq_ok_iff, List.length_map, slotNames_rename hρ.injective, address_rename, List.flatMap_map]
  exact ⟨hbelow', (List.flatMap_congr hops).symm⟩

end Operations

/-! ## Permutations -/

/-- A function that is injective on finitely many texts is there a permutation, which moves only these texts and those
that they go to. -/
theorem exists_perm_of_injOn {s : Set String} (hs : s.Finite) {g : String → String} (hg : Set.InjOn g s) :
    ∃ σ : Equiv.Perm String, Set.EqOn σ g s ∧ ∀ x, x ∉ s ∪ g '' s → σ x = x := by
  let moved : Finset String := (hs.union (hs.image g)).toFinset
  have hmoved : ∀ x, x ∈ moved ↔ x ∈ s ∪ g '' s := fun x => Set.Finite.mem_toFinset _
  have hmaps : Set.MapsTo (fun x : moved => g x) {x | ↑x ∈ s} moved :=
    fun x hx => (hmoved _).2 (.inr ⟨x, hx, rfl⟩)
  have hinj : Set.InjOn (fun x : moved => g x) {x | ↑x ∈ s} :=
    fun x hx y hy hxy => Subtype.ext (hg hx hy hxy)
  obtain ⟨σ, hσ⟩ := hmaps.exists_equiv_extend_of_card_eq (Fintype.card_coe moved) hinj
  refine ⟨Equiv.Perm.ofSubtype σ, fun x hx => ?_, fun x hx => ?_⟩
  · have hmem : x ∈ moved := (hmoved x).2 (.inl hx)
    rw [Equiv.Perm.ofSubtype_apply_of_mem σ hmem]
    exact hσ ⟨x, hmem⟩ hx
  · exact Equiv.Perm.ofSubtype_apply_of_not_mem σ (mt (hmoved x).1 hx)

/-- A permutation that moves only texts of one kind moves them to texts of that kind. -/
theorem perm_keeps {P : String → Prop} {σ : Equiv.Perm String} (hσ : ∀ x, ¬ P x → σ x = x) {x : String} (hx : P x) :
    P (σ x) := by
  by_contra hnot
  have hfixed : σ x = x := σ.injective (hσ (σ x) hnot)
  rw [hfixed] at hnot
  exact hnot hx

/-! ## Programs -/

theorem LiteralText.isVariable_eq_false {kind : LiteralKind} {x : String} (h : LiteralText kind x) :
    isVariable x = false := by
  cases h with
  | nil => decide
  | boolean b => cases b <;> decide
  | number hc => exact Interpreter.isVariable_number hc _
  | string body =>
      have hquote : Text.isAlphanumeric '"' = false := by decide
      simp [isVariable, hquote]

theorem isVariable_of_parseSource {source : String} {program : List Stmt} (h : parseSource source = .ok program)
    {text : String} (htext : .literal text ∈ Stmt.blockMentions program) : isVariable text = false := by
  simp only [parseSource, bind_eq_ok_iff, mapError_eq_ok_iff] at h
  obtain ⟨tokens, htokens, hprogram⟩ := h
  have hscanned := scanned_of_tokenize htokens
  have heof : ∀ t ∈ tokens, t.tag ≠ .eof := fun t ht => (hscanned t ht).tag_ne_eof
  have hfits := @blockFits_of_parse ⟨fun _ => True, LiteralText⟩ _ heof _ hprogram
    fun t ht => ⟨fun _ => trivial, fun _ hkind => (hscanned t ht).literalText hkind⟩
  obtain ⟨kind, hliteral⟩ := Stmt.blockMentions_fit program (unparse_of_parse heof hprogram).1 hfits _ htext
  exact hliteral.isVariable_eq_false

/-- Names that are read as variables and not taken for temporaries. -/
def FreeName (x : String) : Prop :=
  isVariable x = true ∧ Ir.isReserved x = false

theorem exists_carries {mentions : List Mention} {r f : String → String}
    (hliteral : ∀ text, .literal text ∈ mentions → isVariable text = false)
    (hnames : ∀ x, .name x ∈ mentions → FreeName x ∧ FreeName (r x))
    (hr : Set.InjOn r {x | .name x ∈ mentions}) (hf : Set.InjOn f {g | .function g ∈ mentions}) :
    ∃ ρ φ, RenamesVariables ρ ∧ Carries r f ρ φ mentions := by
  have hfinite : ∀ {m : String → Mention}, Function.Injective m → {x | m x ∈ mentions}.Finite :=
    fun hm => mentions.finite_toSet.preimage hm.injOn
  obtain ⟨ρ, hρ, hρfixed⟩ := exists_perm_of_injOn (hfinite fun _ _ => Mention.name.inj) hr
  obtain ⟨φ, hφ, -⟩ := exists_perm_of_injOn (hfinite fun _ _ => Mention.function.inj) hf
  -- Old and new names alike are free, so no temporary or constant is moved.
  have hfixed : ∀ x, ¬ FreeName x → ρ x = x := by
    intro x hx
    refine hρfixed x ?_
    rintro (hold | ⟨y, hy, rfl⟩)
    · exact hx (hnames x hold).1
    · exact hx (hnames y hy).2
  have hconstant : ∀ x, isVariable x = false → ρ x = x := fun x hx =>
    hfixed x fun hfree => Bool.false_ne_true (hx.symm.trans hfree.1)
  refine ⟨ρ, φ, ⟨ρ.injective, fun x hx => ?_, hconstant⟩, ?_⟩
  · by_cases hfree : FreeName x
    · exact (perm_keeps hfixed hfree).1
    · rwa [hfixed x hfree]
  · exact {
      temp := fun n => hfixed _ fun hfree => by simp [FreeName] at hfree
      missing := hconstant _ (by decide)
      injective := φ.injective
      name := fun x hx => hρ hx
      literal := fun text htext => hconstant text (hliteral text htext)
      function := fun g hg => hφ hg }

/-- The operations of a program stay the same if its variables are renamed apart, and its functions but for the names
that builtins are called by. -/
theorem renaming_keeps_operations {source : String} {program : List Stmt} {code : Code} {ops : List Op}
    (hprogram : parseSource source = .ok program) (hcode : Ir.generate program = .ok code) (hops : lower code = .ok ops)
    {r f : String → String}
    (hnames : ∀ x, .name x ∈ Stmt.blockMentions program → FreeName x ∧ FreeName (r x))
    (hr : Set.InjOn r {x | .name x ∈ Stmt.blockMentions program})
    (hf : Set.InjOn f {g | .function g ∈ Stmt.blockMentions program})
    (hbuiltin : ∀ i ∈ code, ∀ site, i.callSite? = some site → site.target = none → f site.callee = site.callee) :
    ∃ code', Ir.generate (Stmt.renameBlock r f program) = .ok code' ∧ lower code' = .ok ops := by
  obtain ⟨ρ, φ, hρ, hcarries⟩ := exists_carries (fun _ => isVariable_of_parseSource hprogram) hnames hr hf
  exact ⟨_, Ir.generate_rename hcarries hcode, lower_rename hρ hbuiltin hops⟩

/-- One function is declared twice and one within another, a variable has the name of a function, and a builtin is
called before a function of that name is declared. One call lacks an argument. -/
def crossedSource : String :=
  "print(x) function g(x, y) function h(y) return y end return h(x) end function h(g) return g end x = g(1) " ++
    "function g(y) return y + x end y = h(g(x)) function print(v) return v end print(y)"

/-- Two variables change places, and a third one gets the name of the builtin. -/
def crossedName (x : String) : String :=
  if x = "g" then "print" else Equiv.swap "x" "y" x

theorem renaming_keeps_operations_crossed :
    ∃ program code ops code', parseSource crossedSource = .ok program ∧ Ir.generate program = .ok code
      ∧ lower code = .ok ops
      ∧ Ir.generate (Stmt.renameBlock crossedName (Equiv.swap "g" "h") program) = .ok code'
      ∧ code' ≠ code ∧ lower code' = .ok ops := by
  have hsource : (parseSource crossedSource).toOption.any (fun program =>
      (Stmt.blockMentions program).all (fun m =>
          m ∈ ["x", "y", "g", "v"].map Mention.name ++ ["g", "h", "print"].map Mention.function ++ [.literal "1"])
        && (Ir.generate program).toOption.any (fun code => (lower code).toOption.isSome
          && code.all (fun i => i.callSite?.all fun site =>
            site.target.isSome || Equiv.swap "g" "h" site.callee = site.callee)
          && (Ir.generate (Stmt.renameBlock crossedName (Equiv.swap "g" "h") program)).toOption.all (· ≠ code)))
      = true := by
    decide +kernel
  have hfree : ∀ x ∈ ["x", "y", "g", "v"], FreeName x ∧ FreeName (crossedName x) := by
    simp only [FreeName]
    decide +kernel
  have hinj : ∀ x ∈ ["x", "y", "g", "v"], ∀ y ∈ ["x", "y", "g", "v"], crossedName x = crossedName y → x = y := by
    decide +kernel
  obtain ⟨program, hprogram, hsource⟩ := exists_ok_of_any hsource
  rw [Bool.and_eq_true] at hsource
  obtain ⟨hmentions, hgenerate⟩ := hsource
  obtain ⟨code, hcode, hgenerate⟩ := exists_ok_of_any hgenerate
  simp only [Bool.and_eq_true, List.all_eq_true, decide_eq_true_eq] at hmentions hgenerate
  obtain ⟨⟨hlower, hcalls⟩, hdiffers⟩ := hgenerate
  obtain ⟨ops, hops⟩ : ∃ ops, lower code = .ok ops := by
    cases hlowered : lower code with
    | error e => simp [hlowered, Except.toOption] at hlower
    | ok ops => exact ⟨ops, rfl⟩
  have hnames : ∀ x, .name x ∈ Stmt.blockMentions program → x ∈ ["x", "y", "g", "v"] := by
    intro x hx
    simpa using hmentions _ hx
  obtain ⟨code', hcode', hops'⟩ := renaming_keeps_operations hprogram hcode hops (fun x hx => hfree x (hnames x hx))
    (fun x hx y hy => hinj x (hnames x hx) y (hnames y hy)) (Equiv.swap "g" "h").injective.injOn
    (fun i hi site hsite htarget => by simpa [hsite, htarget] using hcalls i hi)
  refine ⟨program, code, ops, code', hprogram, hcode, hops, hcode', ?_, hops'⟩
  simpa [hcode', Except.toOption] using hdiffers

end Scriptlet
