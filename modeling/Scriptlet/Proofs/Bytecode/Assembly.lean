import Mathlib.Tactic
import Scriptlet.Bytecode.Assembler
import Scriptlet.Proofs.Actions
import Scriptlet.Proofs.Bytecode.Safety
import Scriptlet.Proofs.Compilation
import Scriptlet.Proofs.Ir.LinearForm

/-!
# What an assembler makes of code

An assembler gives the operations that code is lowered to, whatever it held before. The slots are the names that the
code binds, numbered from zero in the order of their first binding.
-/

namespace Scriptlet.Bytecode

open Ir (Code Instruction CallSite Rhs)
open Ir.Code (TargetsBelow FirstTarget)

/-! ## Slots -/

theorem lookup_zipIdx (names : List String) (x : String) (n : Nat) :
    (names.zipIdx n).lookup x = (names.idxOf? x).map (· + n) := by
  induction names generalizing n with
  | nil => rfl
  | cons y names ih =>
      rw [List.zipIdx_cons, List.lookup_cons, List.idxOf?_cons]
      by_cases h : y = x
      · simp [h]
      · simp only [beq_eq_false_iff_ne.2 h, beq_eq_false_iff_ne.2 (Ne.symm h), ih, Bool.false_eq_true, if_false,
          Option.map_map]
        congr 1
        funext k
        simp [Nat.add_assoc, Nat.add_comm 1 n]

theorem eraseDups_concat (names : List String) (x : String) :
    (names ++ [x]).eraseDups = names.eraseDups ++ if x ∈ names then [] else [x] := by
  rw [List.eraseDups_append]
  by_cases h : x ∈ names <;> simp [List.removeAll, List.eraseDups_cons, h]

/-- Numbering gives each name that is not there yet the next number. -/
theorem foldl_number (names : List String) : names.foldl Assembly.number [] = names.eraseDups.zipIdx := by
  induction names using List.reverseRecOn with
  | nil => rfl
  | append_singleton names x ih =>
      rw [List.foldl_append, ih, List.foldl_cons, List.foldl_nil, Assembly.number, lookup_zipIdx, eraseDups_concat]
      by_cases h : x ∈ names
      · have hmem : x ∈ names.eraseDups := List.mem_eraseDups.2 h
        simp [h, idxOf?_of_mem hmem]
      · have hnone : names.eraseDups.idxOf? x = none := by
          rw [List.idxOf?_eq_none_iff]
          exact fun hmem => h (List.mem_eraseDups.1 hmem)
        simp [h, hnone, List.zipIdx_append]

/-- Names stand in the order in which they are met. -/
theorem pairwise_eraseDups (names : List String) :
    names.eraseDups.Pairwise fun x y => names.idxOf x < names.idxOf y := by
  induction names using List.reverseRecOn with
  | nil => exact .nil
  | append_singleton names x ih =>
      have hold : ∀ y ∈ names.eraseDups, (names ++ [x]).idxOf y = names.idxOf y := fun y hy =>
        List.idxOf_append_of_mem (List.mem_eraseDups.1 hy)
      rw [eraseDups_concat, List.pairwise_append]
      refine ⟨ih.imp_of_mem fun hy hz hlt => by rwa [hold _ hy, hold _ hz], ?_, ?_⟩
      · split
        · exact .nil
        · exact List.pairwise_singleton _ _
      · intro y hy z hz
        split at hz
        · cases hz
        · rename_i hx
          rw [List.mem_singleton.1 hz, hold y hy, List.idxOf_append_of_notMem hx]
          exact Nat.lt_of_lt_of_le (List.idxOf_lt_length_iff.2 (List.mem_eraseDups.1 hy)) (Nat.le_add_right _ _)

/-! ## Writing -/

/-- With these names numbered, an assembler writes these operations, and placeholders at some of them. -/
def Writes (names : List String) (p : Assembly Unit) (ops : List Op) (placeholders : List (Nat × Nat)) : Prop :=
  ∀ a : Assembler, a.slots = names.zipIdx → p a = .ok () { a with
    ops := a.ops ++ ops
    placeholders := a.placeholders ++ placeholders.map fun entry => (a.ops.length + entry.1, entry.2) }

section Writing

variable {names : List String} {p q : Assembly Unit} {ops ops' : List Op}
  {placeholders placeholders' : List (Nat × Nat)}

theorem Writes.andThen (hp : Writes names p ops placeholders) (hq : Writes names q ops' placeholders') :
    Writes names (do p; q) (ops ++ ops')
      (placeholders ++ placeholders'.map fun entry => (ops.length + entry.1, entry.2)) := by
  intro a ha
  rw [bind_ok (hp a ha)]
  refine (hq _ ?_).trans ?_
  · exact ha
  · simp [Nat.add_assoc]

theorem writes_nothing : Writes names (pure ()) [] [] := by
  intro a _
  simp [pure, EStateM.pure]

theorem writes_emit (op : Op) : Writes names (Assembly.emit op) [op] [] := by
  intro a _
  simp [Assembly.emit, modify, modifyGet, MonadStateOf.modifyGet, EStateM.modifyGet]

theorem writes_emitAddress (target : Nat) : Writes names (Assembly.emitAddress target) [.push .nil] [(0, target)] :=
  fun _ _ => rfl

theorem writes_emitSlot {name : String} (h : name ∈ names) :
    Writes names (Assembly.emitSlot name) [slotOp names name] [] := by
  intro a ha
  have hlookup : a.slots.lookup name = some (names.idxOf name) := by
    simp [ha, lookup_zipIdx, idxOf?_of_mem h]
  rw [Assembly.emitSlot, get_bind, hlookup]
  exact writes_emit _ a ha

theorem writes_emitOperand (x : String) : Writes names (Assembly.emitOperand x) [operandOp names x] [] := by
  intro a ha
  have hlookup : a.slots.lookup x = names.idxOf? x := by simp [ha, lookup_zipIdx]
  rw [Assembly.emitOperand, operandOp]
  cases unquoted? x with
  | some s => exact writes_emit _ a ha
  | none =>
      by_cases hx : isVariable x = true
      · simp only [hx, if_true]
        rw [get_bind, hlookup]
        cases names.idxOf? x <;> exact writes_emit _ a ha
      · simp only [hx]
        exact writes_emit _ a ha

theorem writes_emitCall (site : CallSite) :
    Writes names (Assembly.emitCall site)
      (match site.target with
        | some _ => [.push .nil, .push (.ofIndex site.argc), .call]
        | none => callOps id site)
      (site.target.toList.map (0, ·)) := by
  rw [Assembly.emitCall, callOps]
  cases site.target with
  | some t => exact (writes_emitAddress t).andThen ((writes_emit _).andThen (writes_emit _))
  | none => exact (writes_emit _).andThen ((writes_emit _).andThen (writes_emit _))

end Writing

/-! ## Drafts -/

/-- The operations of an instruction as they are first written: a placeholder stands for the address. -/
def draft (names : List String) (i : Instruction) : List Op :=
  if i.target?.isSome then (instructionOps names id i).set (addressIndex i) (.push .nil) else instructionOps names id i

theorem writes_emitInstruction {names : List String} {i : Instruction} (h : ∀ x, i.binds? = some x → x ∈ names) :
    Writes names (Assembly.emitInstruction i) (draft names i) (i.target?.toList.map (addressIndex i, ·)) := by
  cases i with
  | goto t => exact (writes_emitAddress t).andThen (writes_emit _)
  | branch x t => exact (writes_emitAddress t).andThen ((writes_emitOperand x).andThen (writes_emit _))
  | assign name rhs =>
      have hslot := writes_emitSlot (h name rfl)
      cases rhs with
      | single x => exact hslot.andThen ((writes_emitOperand x).andThen (writes_emit _))
      | unary op x => exact hslot.andThen (((writes_emitOperand x).andThen (writes_emit _)).andThen (writes_emit _))
      | binary op x y =>
          exact hslot.andThen
            (((writes_emitOperand y).andThen ((writes_emitOperand x).andThen (writes_emit _))).andThen (writes_emit _))
      | call site =>
          have hwrites := hslot.andThen
            (((writes_emit (.push (.ofIndex 1))).andThen (writes_emitCall site)).andThen (writes_emit .store))
          obtain ⟨callee, argc, _ | t⟩ := site <;> exact hwrites
  | ret x => exact (writes_emitOperand x).andThen (writes_emit _)
  | param x name =>
      cases name with
      | some name => exact (writes_emitSlot (h name rfl)).andThen (writes_emitOperand x)
      | none => exact (writes_emit _).andThen (writes_emitOperand x)
  | call site =>
      have hflag : Writes names (Assembly.emit (.push (.ofIndex 0))) _ _ := writes_emit _
      have hwrites := hflag.andThen ((writes_emitCall site).andThen (writes_emit .pop))
      obtain ⟨callee, argc, _ | t⟩ := site <;> exact hwrites
  | stop => exact writes_emit _
  | blank => exact writes_nothing

/-- Putting the address in place of the placeholder gives the operations of the instruction. -/
theorem set_draft (names : List String) (address : Nat → Nat) {i : Instruction} {t : Nat} (h : i.target? = some t) :
    (draft names i).set (addressIndex i) (.push (.ofIndex (address t))) = instructionOps names address i := by
  cases i with
  | goto t => cases h; rfl
  | branch x t => cases h; rfl
  | assign name rhs =>
      cases rhs with
      | call site => obtain ⟨callee, argc, _ | t⟩ := site <;> cases h; rfl
      | _ => cases h
  | call site => obtain ⟨callee, argc, _ | t⟩ := site <;> cases h; rfl
  | _ => cases h

theorem draft_of_target?_eq_none (names : List String) (address : Nat → Nat) {i : Instruction} (h : i.target? = none) :
    draft names i = instructionOps names address i := by
  cases i with
  | goto t => cases h
  | branch x t => cases h
  | assign name rhs =>
      cases rhs with
      | call site => obtain ⟨callee, argc, _ | t⟩ := site <;> cases h; rfl
      | _ => rfl
  | call site => obtain ⟨callee, argc, _ | t⟩ := site <;> cases h; rfl
  | param x name => cases name <;> rfl
  | _ => rfl

@[simp]
theorem length_draft (names : List String) (i : Instruction) : (draft names i).length = width i := by
  rw [draft]
  split <;> simp

theorem addressIndex_lt_width {i : Instruction} {t : Nat} (h : i.target? = some t) : addressIndex i < width i := by
  cases i with
  | assign name rhs => cases rhs <;> simp_all [Instruction.target?, addressIndex, width]
  | _ => simp_all [Instruction.target?, addressIndex, width]

theorem getElem?_draft (names : List String) {i : Instruction} {t : Nat} (h : i.target? = some t) :
    (draft names i)[addressIndex i]? = some (.push .nil) := by
  simp [draft, h, addressIndex_lt_width h]

/-! ## Code -/

/-- The placeholders of code whose operations start at `op`. -/
def placeholdersFrom (op : Nat) : Code → List (Nat × Nat)
  | [] => []
  | i :: rest => i.target?.toList.map (op + addressIndex i, ·) ++ placeholdersFrom (op + width i) rest

theorem emitCode_eq {names : List String} {code : Code} (h : ∀ i ∈ code, ∀ x, i.binds? = some x → x ∈ names)
    {a : Assembler} (ha : a.slots = names.zipIdx) :
    Assembly.emitCode code a = .ok ((List.range code.length).map fun place => a.ops.length + address code place)
      { a with
        ops := a.ops ++ code.flatMap (draft names)
        placeholders := a.placeholders ++ placeholdersFrom a.ops.length code } := by
  induction code generalizing a with
  | nil => simp [Assembly.emitCode, placeholdersFrom, pure, EStateM.pure]
  | cons i code ih =>
      obtain ⟨hi, hcode⟩ := List.forall_mem_cons.1 h
      rw [Assembly.emitCode, get_bind, bind_ok (writes_emitInstruction hi a ha), bind_ok (ih hcode ?_)]
      · simp [pure, EStateM.pure, placeholdersFrom, List.range_succ_eq_map, Function.comp_def, address_cons_succ,
          Nat.add_assoc]
      · exact ha

/-- Addresses are put in place one after the other, up to the first that there is none for. -/
theorem resolve_eq {names : List String} {firsts : List Nat} {size : Nat} {address : Nat → Nat}
    (hfirsts : ∀ t, firsts[t]? = if t < size then some (address t) else none) (code : Code) (before : List Op)
    (a : Assembler) (ha : a.ops = before ++ code.flatMap (draft names)) :
    (unresolvedFrom size before.length code = none →
        Assembly.resolve firsts (placeholdersFrom before.length code) a
          = .ok () { a with ops := before ++ code.flatMap (instructionOps names address) })
      ∧ ∀ e, unresolvedFrom size before.length code = some e → ∃ ops,
        Assembly.resolve firsts (placeholdersFrom before.length code) a
            = .error (.unresolvedTarget e) { a with ops := ops }
          ∧ ops[e.op]? = some (.push .nil) := by
  induction code generalizing before a with
  | nil =>
      obtain ⟨ops, slots, placeholders⟩ := a
      cases ha
      simp [unresolvedFrom, placeholdersFrom, Assembly.resolve, pure, EStateM.pure]
  | cons i code ih =>
      rw [List.flatMap_cons] at ha
      have hlength : (before ++ instructionOps names address i).length = before.length + width i := by simp
      cases ht : i.target? with
      | none =>
          have hdraft := draft_of_target?_eq_none names address ht
          have hrest := ih (before ++ instructionOps names address i) a (by rw [ha, hdraft, List.append_assoc])
          rw [hlength] at hrest
          simpa [unresolvedFrom, placeholdersFrom, ht] using hrest
      | some t =>
          have hindex : addressIndex i < (draft names i).length := by
            rw [length_draft]
            exact addressIndex_lt_width ht
          by_cases hlt : t < size
          · have hset : a.ops.set (before.length + addressIndex i) (.push (.ofIndex (address t)))
                = before ++ instructionOps names address i ++ code.flatMap (draft names) := by
              rw [ha, List.set_append_right _ _ (Nat.le_add_right _ _), Nat.add_sub_cancel_left,
                List.set_append_left _ _ hindex, set_draft names address ht, List.append_assoc]
            have hrest := ih (before ++ instructionOps names address i)
              { a with ops := a.ops.set (before.length + addressIndex i) (.push (.ofIndex (address t))) } hset
            rw [hlength] at hrest
            have hfirst : firsts[t]? = some (address t) := by rw [hfirsts, if_pos hlt]
            simp only [unresolvedFrom, placeholdersFrom, ht, if_pos hlt, Option.toList_some, List.map_cons,
              List.map_nil, List.cons_append, List.nil_append, Assembly.resolve, hfirst, modify_bind]
            simpa using hrest
          · have hnone : firsts[t]? = none := by rw [hfirsts, if_neg hlt]
            simp only [unresolvedFrom, placeholdersFrom, ht, if_neg hlt, Option.toList_some, List.map_cons,
              List.map_nil, List.cons_append, List.nil_append, Assembly.resolve, hnone]
            refine ⟨by simp, ?_⟩
            rintro _ ⟨⟩
            refine ⟨a.ops, rfl, ?_⟩
            rw [ha, List.getElem?_append_right (Nat.le_add_right _ _), Nat.add_sub_cancel_left,
              List.getElem?_append_left hindex, getElem?_draft names ht]

/-- The first operations of the instructions of code. -/
def firstOps (code : Code) : List Nat :=
  (List.range code.length).map (address code)

theorem getElem?_firstOps (code : Code) (t : Nat) :
    (firstOps code)[t]? = if t < code.length then some (address code t) else none := by
  rw [firstOps, List.getElem?_map]
  by_cases h : t < code.length <;> simp [h]

/-- An assembler forgets what it held, numbers the slots, writes drafts, and puts the addresses in place. -/
theorem assemble_eq (code : Code) (a : Assembler) :
    Assembly.assemble code a
      = (do
          Assembly.resolve (firstOps code) (placeholdersFrom 0 code)
          let ops := (← get).ops
          modify fun a => { a with ops := [] }
          return ops : Assembly (List Op))
        { ops := code.flatMap (draft (slotNames code)), slots := (slotNames code).zipIdx } := by
  have hbinds : ∀ i ∈ code, ∀ x, i.binds? = some x → x ∈ slotNames code := fun i hi x => mem_slotNames hi
  have hcode := @emitCode_eq (slotNames code) code hbinds { ops := [], slots := (slotNames code).zipIdx } rfl
  rw [Assembly.assemble, modify_bind, Assembly.numberSlots, modify_bind, foldl_number, ← slotNames]
  rw [bind_ok hcode]
  simp [firstOps, get_bind, modify_bind]

theorem assemble_of_lower {code : Code} {ops : List Op} (h : lower code = .ok ops) (a : Assembler) :
    a.assemble code = (.ok ops, { slots := (slotNames code).zipIdx }) := by
  obtain ⟨hbelow, rfl⟩ := lower_eq_ok_iff.1 h
  have hresolve := (resolve_eq (getElem?_firstOps code) code []
    { ops := code.flatMap (draft (slotNames code)), slots := (slotNames code).zipIdx } rfl).1
    (unresolvedFrom_eq_none_iff.2 hbelow)
  rw [List.length_nil] at hresolve
  rw [Assembler.assemble, assemble_eq, bind_ok hresolve]
  rfl

theorem unresolvedFrom_of_lower {code : Code} {e : UnresolvedTarget} (h : lower code = .error e) :
    unresolvedFrom code.length 0 code = some e := by
  rw [lower] at h
  split at h
  · cases h
    assumption
  · cases h

theorem assemble_of_lower_error {code : Code} {e : UnresolvedTarget} (h : lower code = .error e) (a : Assembler) :
    ∃ ops, a.assemble code = (.error (.unresolvedTarget e), { ops := ops, slots := (slotNames code).zipIdx })
      ∧ ops[e.op]? = some (.push .nil) := by
  obtain ⟨ops, hresolve, hop⟩ := (resolve_eq (getElem?_firstOps code) code []
    { ops := code.flatMap (draft (slotNames code)), slots := (slotNames code).zipIdx } rfl).2 e
    (unresolvedFrom_of_lower h)
  rw [List.length_nil] at hresolve
  refine ⟨ops, ?_, hop⟩
  simp only [Assembler.assemble, assemble_eq, bind, EStateM.bind, hresolve]

theorem firstTarget_of_unresolvedFrom {size op : Nat} {code : Code} {e : UnresolvedTarget}
    (h : unresolvedFrom size op code = some e) :
    ∃ before i, FirstTarget (size ≤ ·) code before i e.target
      ∧ e.op = op + address code before.length + addressIndex i := by
  induction code generalizing op with
  | nil => cases h
  | cons i code ih =>
      have hlater : (∀ t, i.target? = some t → ¬ size ≤ t) → unresolvedFrom size (op + width i) code = some e →
          ∃ before k, FirstTarget (size ≤ ·) (i :: code) before k e.target
            ∧ e.op = op + address (i :: code) before.length + addressIndex k := by
        intro hi hrest
        obtain ⟨before, k, hfirst, hop⟩ := ih hrest
        refine ⟨i :: before, k, hfirst.cons hi, ?_⟩
        rw [hop, List.length_cons, address_cons_succ, ← Nat.add_assoc]
      rw [unresolvedFrom] at h
      cases ht : i.target? with
      | none =>
          simp only [ht] at h
          exact hlater (by simp [ht]) h
      | some t =>
          simp only [ht] at h
          by_cases hlt : t < size
          · rw [if_pos hlt] at h
            exact hlater (by simp [ht, hlt]) h
          · rw [if_neg hlt] at h
            cases h
            exact ⟨[], i, ⟨⟨code, rfl⟩, ht, Nat.le_of_not_lt hlt, by simp⟩, rfl⟩

/-! ## What assemblers guarantee -/

/-- A table numbers the names that code binds from zero on, in the order of their first binding. -/
structure Numbered (code : Code) (slots : List (String × Nat)) : Prop where
  bound : ∀ x, (slots.lookup x).isSome ↔ ∃ i ∈ code, i.binds? = some x
  onto : ∀ slot, slot < slots.length ↔ ∃ x, slots.lookup x = some slot
  injective : ∀ x y slot, slots.lookup x = some slot → slots.lookup y = some slot → x = y
  ordered : ∀ x y m n, slots.lookup x = some m → slots.lookup y = some n →
    (m < n ↔ (code.filterMap Instruction.binds?).idxOf x < (code.filterMap Instruction.binds?).idxOf y)

theorem lookup_slots_iff {code : Code} {x : String} {slot : Nat} :
    (slotNames code).zipIdx.lookup x = some slot ↔ (slotNames code)[slot]? = some x := by
  have hnodup : (slotNames code).Nodup :=
    (pairwise_eraseDups _).imp fun {y z} hlt heq => by simp [heq] at hlt
  rw [lookup_zipIdx]
  simp only [Nat.add_zero, Option.map_id']
  constructor
  · intro h
    rw [List.idxOf?, List.findIdx?_eq_some_iff_getElem] at h
    obtain ⟨hlt, heq, -⟩ := h
    rw [List.getElem?_eq_getElem hlt, eq_of_beq heq]
  · intro h
    obtain ⟨hlt, rfl⟩ := List.getElem?_eq_some_iff.1 h
    rw [idxOf?_of_mem (List.getElem_mem hlt), hnodup.idxOf_getElem]

theorem numbered_slots (code : Code) : Numbered code (slotNames code).zipIdx := by
  have hordered : ∀ {x y : String} {m n : Nat}, (slotNames code)[m]? = some x → (slotNames code)[n]? = some y → m < n →
      (code.filterMap Instruction.binds?).idxOf x < (code.filterMap Instruction.binds?).idxOf y := by
    intro x y m n hx hy hlt
    obtain ⟨hm, rfl⟩ := List.getElem?_eq_some_iff.1 hx
    obtain ⟨hn, rfl⟩ := List.getElem?_eq_some_iff.1 hy
    exact List.pairwise_iff_getElem.1 (pairwise_eraseDups _) m n hm hn hlt
  constructor
  · intro x
    rw [Option.isSome_iff_exists]
    simp only [lookup_slots_iff]
    rw [← List.mem_iff_getElem?, slotNames, List.mem_eraseDups, List.mem_filterMap]
  · intro slot
    simp only [lookup_slots_iff, List.length_zipIdx]
    rw [← Option.isSome_iff_exists, Option.isSome_iff_ne_none, ne_eq, List.getElem?_eq_none_iff, Nat.not_le]
  · intro x y slot hx hy
    rw [lookup_slots_iff] at hx hy
    exact Option.some.inj (hx.symm.trans hy)
  · intro x y m n hx hy
    rw [lookup_slots_iff] at hx hy
    refine ⟨hordered hx hy, fun hlt => ?_⟩
    rcases Nat.lt_trichotomy m n with h | rfl | h
    · exact h
    · rw [hx] at hy
      cases hy
      exact absurd hlt (Nat.lt_irrefl _)
    · exact absurd (hordered hy hx h) (Nat.lt_asymm hlt)

/-- An operation pushes the address of the target of the instruction that the operation at `ip` belongs to. -/
def PushesTarget (code : Code) (ops : List Op) (op ip : Nat) : Prop :=
  ∃ place i t, code[place]? = some i ∧ i.target? = some t ∧ t < code.length ∧ op = address code place + addressIndex i
    ∧ ip < address code (place + 1) ∧ ops[op]? = some (.push (.ofIndex (address code t)))

/-- The operation at the address of a place pushes the slot of a name. -/
def PushesSlot (code : Code) (slots : List (String × Nat)) (ops : List Op) (place : Nat) (name : String) : Prop :=
  ∃ slot, slots.lookup name = some slot ∧ ops[address code place]? = some (.push (.ofIndex slot))

/-- What holds of the operations of code and the table of slots. -/
structure Assembled (code : Code) (slots : List (String × Nat)) (ops : List Op) : Prop where
  tiled : ops = code.flatMap (instructionOps (slotNames code) (address code))
  first : ∀ place,
    address code place = ((code.take place).flatMap (instructionOps (slotNames code) (address code))).length
  slot : ∀ slot, .pushSlot slot ∈ ops → slot < slots.length
  store : ∀ ip, ops[ip]? = some .store → ∃ place name rhs, code[place]? = some (.assign name rhs)
    ∧ ip + 1 = address code (place + 1) ∧ PushesSlot code slots ops place name
  param : ∀ place x name, code[place]? = some (.param x (some name)) → PushesSlot code slots ops place name
  jump : ∀ ip, ops[ip]? = some .jump → ∃ op, ip = op + 1 ∧ PushesTarget code ops op ip
  branch : ∀ ip, ops[ip]? = some .branch → ∃ op, ip = op + 2 ∧ PushesTarget code ops op ip
  call : ∀ ip, ops[ip]? = some .call → ∃ op, ip = op + 2 ∧ PushesTarget code ops op ip

theorem address_eq_length_take (code : Code) (place : Nat) (names : List String) (target : Nat → Nat) :
    address code place = ((code.take place).flatMap (instructionOps names target)).length := by
  rw [length_flatMap_width (length_instructionOps _ _), address, address, List.take_length]

theorem getElem?_addressIndex (names : List String) (target : Nat → Nat) {i : Instruction} {t : Nat}
    (h : i.target? = some t) :
    (instructionOps names target i)[addressIndex i]? = some (.push (.ofIndex (target t))) := by
  rw [← set_draft names target h, List.getElem?_set_self]
  rw [length_draft]
  exact addressIndex_lt_width h

theorem head?_instructionOps (names : List String) (target : Nat → Nat) {i : Instruction} {name : String}
    (h : i.binds? = some name) : (instructionOps names target i)[0]? = some (slotOp names name) := by
  cases i with
  | assign x rhs => cases h; rfl
  | param x y => cases h; rfl
  | _ => cases h

theorem assign_of_controls {i : Instruction} {k : Nat} (h : (controls i)[k]? = some (some .store)) :
    k + 1 = width i ∧ ∃ name rhs, i = .assign name rhs := by
  have hmem := List.mem_of_getElem? h
  cases i with
  | assign name rhs =>
      refine ⟨?_, name, rhs, rfl⟩
      rcases rhs with x | ⟨op, x⟩ | ⟨op, x, y⟩ | site
      · rcases k with _ | _ | _ | k <;> simp_all [controls, width]
      · rcases k with _ | _ | _ | _ | k <;> simp_all [controls, width]
      · rcases k with _ | _ | _ | _ | _ | k <;> simp_all [controls, width]
      · rcases k with _ | _ | _ | _ | _ | _ | k <;> cases hsite : site.target <;> simp_all [controls, width]
  | call site => cases hsite : site.target <;> simp [controls, hsite] at hmem
  | _ => simp [controls] at hmem

theorem addressIndex_call {i : Instruction} {site : CallSite} (hsite : i.callSite? = some site) :
    addressIndex i = i.binds?.toList.length + 1 := by
  cases i with
  | assign name rhs => cases rhs <;> cases hsite; rfl
  | call site' => rfl
  | _ => cases hsite

section Assembled

variable {code : Code}

theorem pushesTarget_of_getElem? (hbelow : TargetsBelow code.length code) {place : Nat} {i : Instruction} {t ip : Nat}
    (hi : code[place]? = some i) (ht : i.target? = some t) (hip : ip < address code (place + 1)) :
    PushesTarget code (operations id code) (address code place + addressIndex i) ip := by
  refine ⟨place, i, t, hi, ht, hbelow i (List.mem_of_getElem? hi) t ht, rfl, hip, ?_⟩
  rw [getElem?_operations id hi (addressIndex_lt_width ht), getElem?_addressIndex _ _ ht]
  rfl

theorem pushesSlot_of_getElem? {place : Nat} {i : Instruction} {name : String} (hi : code[place]? = some i)
    (hname : i.binds? = some name) :
    PushesSlot code (slotNames code).zipIdx (operations id code) place name := by
  have hmem := mem_slotNames (List.mem_of_getElem? hi) hname
  have hhead := head?_instructionOps (slotNames code) (address code) hname
  have hwidth : 0 < width i := by
    rw [← length_instructionOps (slotNames code) (address code) i]
    exact (List.getElem?_eq_some_iff.1 hhead).1
  have hop := getElem?_operations id hi hwidth
  rw [Nat.add_zero, hhead] at hop
  exact ⟨(slotNames code).idxOf name, by simp [lookup_zipIdx, idxOf?_of_mem hmem], hop⟩

theorem assembled_operations (hbelow : TargetsBelow code.length code) :
    Assembled code (slotNames code).zipIdx (operations id code) := by
  refine ⟨operations_id code, fun place => address_eq_length_take code place _ _, ?_, ?_, ?_, ?_, ?_, ?_⟩
  · intro slot hslot
    rw [operations_id, List.mem_flatMap] at hslot
    obtain ⟨i, -, hi⟩ := hslot
    rw [List.length_zipIdx]
    exact slot_lt_of_mem_instructionOps hi
  · intro ip hip
    obtain ⟨place, i, k, hi, rfl, hk⟩ := exists_control hip rfl
    obtain ⟨hwidth, name, rhs, rfl⟩ := assign_of_controls hk
    exact ⟨place, name, rhs, hi, by rw [address_succ hi]; omega, pushesSlot_of_getElem? hi rfl⟩
  · intro place x name hi
    exact pushesSlot_of_getElem? hi rfl
  · intro ip hip
    obtain ⟨place, i, k, hi, rfl, hk⟩ := exists_control hip rfl
    obtain ⟨rfl, t, rfl⟩ := goto_of_controls hk
    refine ⟨_, rfl, pushesTarget_of_getElem? hbelow hi rfl ?_⟩
    rw [address_succ hi]
    simp [width]
  · intro ip hip
    obtain ⟨place, i, k, hi, rfl, hk⟩ := exists_control hip rfl
    obtain ⟨rfl, x, t, rfl⟩ := branch_of_controls hk
    refine ⟨_, rfl, pushesTarget_of_getElem? hbelow hi rfl ?_⟩
    rw [address_succ hi]
    simp [width]
  · intro ip hip
    obtain ⟨place, i, k, hi, rfl, hk⟩ := exists_control hip rfl
    obtain ⟨site, t, hsite, ht, rfl⟩ := call_of_controls hk
    have htarget : i.target? = some t := by rw [Ir.target?_of_callSite? hsite, ht]
    have hindex := addressIndex_call hsite
    refine ⟨address code place + addressIndex i, by omega, pushesTarget_of_getElem? hbelow hi htarget ?_⟩
    rw [address_succ hi, width_call hsite]
    omega

theorem address_lt_of_validate (h : code.validate = .ok ()) {place other : Nat} (hlt : place < other)
    (hother : other ≤ code.length) : address code place < address code other := by
  obtain ⟨-, hlive⟩ := Ir.Code.targetsBelow_of_validateFrom h
  have hplace : place < code.length := Nat.lt_of_lt_of_le hlt hother
  have hwidth := width_pos (hlive _ (List.getElem_mem hplace))
  calc address code place
    _ < address code place + width code[place] := Nat.lt_add_of_pos_right hwidth
    _ = address code (place + 1) := (address_succ (List.getElem?_eq_getElem hplace)).symm
    _ ≤ address code other := address_mono code hlt

end Assembled

/-- An assembler that is used again gives what a new one gives. It fails exactly if a target is not in the code, and
then names the first such target and its placeholder. Whether or not it fails, it numbers the names that the code binds.
All slots and addresses among the operations are those that they are meant to be. -/
theorem assemble_exact (a : Assembler) (code : Code) :
    ((∃ e, (a.assemble code).1 = .error e) ↔ ∃ i ∈ code, ∃ t, i.target? = some t ∧ code.length ≤ t)
      ∧ (∀ e, (a.assemble code).1 = .error e → ∃ before i t op, FirstTarget (code.length ≤ ·) code before i t
        ∧ op = address code before.length + addressIndex i ∧ e = .unresolvedTarget ⟨op, t⟩
        ∧ (a.assemble code).2.ops[op]? = some (.push .nil))
      ∧ Numbered code (a.assemble code).2.slots
      ∧ (∀ ops, (a.assemble code).1 = .ok ops → Assembled code (a.assemble code).2.slots ops
        ∧ (code.validate = .ok () → (∀ place < code.length, address code place < ops.length)
          ∧ ∀ other < code.length, ∀ place < other, address code place < address code other))
      ∧ (a.assemble code).1 = (({} : Assembler).assemble code).1 := by
  cases h : lower code with
  | ok ops =>
      obtain ⟨hbelow, rfl⟩ := lower_eq_ok_iff.1 h
      rw [← operations_id] at h
      rw [assemble_of_lower h, assemble_of_lower h]
      refine ⟨⟨by simp, ?_⟩, by simp, numbered_slots code, ?_, rfl⟩
      · rintro ⟨i, hi, t, ht, hle⟩
        exact absurd (hbelow i hi t ht) (Nat.not_lt.2 hle)
      · rintro _ ⟨⟩
        refine ⟨assembled_operations hbelow, fun hvalid => ⟨?_, ?_⟩⟩
        · intro place hplace
          rw [length_operations]
          exact address_lt_of_validate hvalid hplace le_rfl
        · intro other hother place hplace
          exact address_lt_of_validate hvalid hplace hother.le
  | error e =>
      obtain ⟨ops, hassemble, hop⟩ := assemble_of_lower_error h a
      obtain ⟨_, hfresh, -⟩ := assemble_of_lower_error h {}
      obtain ⟨before, i, hfirst, hindex⟩ := firstTarget_of_unresolvedFrom (unresolvedFrom_of_lower h)
      obtain ⟨after, hcode⟩ := hfirst.split
      rw [hassemble, hfresh]
      have hfault : i ∈ code := by simp [hcode]
      refine ⟨⟨fun _ => ⟨i, hfault, _, hfirst.has, hfirst.holds⟩, by simp⟩, ?_, numbered_slots code, by simp, rfl⟩
      rintro _ ⟨⟩
      exact ⟨before, i, e.target, e.op, hfirst, by rw [hindex, Nat.zero_add], rfl, hop⟩

/-- After a jump out of the code, the same assembler is given a call. -/
theorem assemble_exact_reused :
    ∃ a ops, ({} : Assembler).assemble [.stop, .goto 7] = (.error (.unresolvedTarget ⟨1, 7⟩), a)
      ∧ (a.assemble [.param "n" (some "n"), .assign "x" (.call ⟨"f", 1, some 3⟩), .stop, .ret "n"]).1 = .ok ops
      ∧ Assembled [.param "n" (some "n"), .assign "x" (.call ⟨"f", 1, some 3⟩), .stop, .ret "n"]
        (a.assemble [.param "n" (some "n"), .assign "x" (.call ⟨"f", 1, some 3⟩), .stop, .ret "n"]).2.slots ops
      ∧ ∀ place < 4,
        address [.param "n" (some "n"), .assign "x" (.call ⟨"f", 1, some 3⟩), .stop, .ret "n"] place < ops.length := by
  have hexact := assemble_exact (({} : Assembler).assemble [.stop, .goto 7]).2
    [.param "n" (some "n"), .assign "x" (.call ⟨"f", 1, some 3⟩), .stop, .ret "n"]
  refine ⟨(({} : Assembler).assemble [.stop, .goto 7]).2, ?_⟩
  cases h : ((({} : Assembler).assemble [.stop, .goto 7]).2.assemble
    [.param "n" (some "n"), .assign "x" (.call ⟨"f", 1, some 3⟩), .stop, .ret "n"]).1 with
  | error e =>
      obtain ⟨i, hi, t, ht, hle⟩ := hexact.1.1 ⟨e, h⟩
      simp at hi
      rcases hi with rfl | rfl | rfl | rfl <;> cases ht
      exact absurd hle (by decide)
  | ok ops =>
      obtain ⟨hassembled, hvalid⟩ := hexact.2.2.2.1 ops h
      exact ⟨ops, rfl, rfl, hassembled, (hvalid rfl).1⟩

end Scriptlet.Bytecode
