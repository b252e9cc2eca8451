import Mathlib.Tactic
import Scriptlet.Ir.Snapshot
import Scriptlet.Proofs.Ir.Linearization

/-!
# Snapshots can be read back

Every part of a snapshot delimits itself: a reader takes the bytes of the part and no others, and runs out of data on
every strict prefix of them. Both facts carry over from parts to sequences of parts, so they hold of whole snapshots.
-/

namespace Scriptlet.Ir

namespace Snapshot

/-! ## Readers -/

/-- The reader takes exactly these bytes, whatever follows them, and gets the value out of them; it asks for more data if
some at their end are missing. -/
structure Reads {α : Type} (r : Reader α) (bytes : List UInt8) (a : α) : Prop where
  whole : ∀ rest, r (bytes ++ rest) = .ok (a, rest)
  cut : ∀ part, part <+: bytes → part ≠ bytes → r part = .error .endOfData

namespace Reads

variable {α β : Type} {r : Reader α} {bytes : List UInt8} {a : α}

theorem pure (a : α) : Reads (Pure.pure a) [] a := by
  refine ⟨fun rest => rfl, fun part hpart hne => ?_⟩
  exact absurd (List.prefix_nil.1 hpart) hne

theorem bind {g : α → Reader β} {more : List UInt8} {b : β} (h : Reads r bytes a) (hg : Reads (g a) more b) :
    Reads (r >>= g) (bytes ++ more) b := by
  refine ⟨fun rest => ?_, fun part hpart hne => ?_⟩
  · simp only [Bind.bind, StateT.bind, Except.bind, List.append_assoc, h.whole, hg.whole]
  · -- the cut is in the first part or behind it
    by_cases hbehind : bytes <+: part
    · obtain ⟨tail, rfl⟩ := hbehind
      have htail : tail <+: more := (List.prefix_append_right_inj bytes).1 hpart
      simp only [Bind.bind, StateT.bind, Except.bind, h.whole, hg.cut tail htail fun heq => hne (heq ▸ rfl)]
    · have hfirst : part <+: bytes :=
        (List.prefix_or_prefix_of_prefix hpart (List.prefix_append bytes more)).resolve_right hbehind
      have hshort : part ≠ bytes := fun heq => hbehind (heq ▸ List.prefix_rfl)
      simp only [Bind.bind, StateT.bind, Except.bind, h.cut part hfirst hshort]

theorem map (h : Reads r bytes a) (f : α → β) : Reads (r >>= fun x => Pure.pure (f x)) bytes (f a) := by
  have hmap := h.bind (g := fun x => Pure.pure (f x)) (.pure (f a))
  rwa [List.append_nil] at hmap

/-- A reader that takes a byte and goes on as another one. -/
theorem cons {k : Reader α} {b : UInt8} (hnil : r [] = .error .endOfData) (hcons : ∀ rest, r (b :: rest) = k rest)
    (h : Reads k bytes a) : Reads r (b :: bytes) a := by
  refine ⟨fun rest => ?_, fun part hpart hne => ?_⟩
  · rw [List.cons_append, hcons, h.whole]
  · cases part with
    | nil => exact hnil
    | cons c part =>
        obtain ⟨rfl, htail⟩ := List.cons_prefix_cons.1 hpart
        rw [hcons, h.cut part htail fun heq => hne (heq ▸ rfl)]

end Reads

/-! ## Numbers and texts -/

theorem number_of_lt {n : Nat} (h : n < 128) : number n = [UInt8.ofNat n] := by
  rw [number, if_pos h]

theorem number_of_le {n : Nat} (h : 128 ≤ n) : number n = UInt8.ofNat (n % 128 + 128) :: number (n / 128) := by
  rw [number, if_neg (Nat.not_lt.2 h)]

theorem numberWithin_cons (top groups : Nat) (b : UInt8) (rest : List UInt8) :
    numberWithin top (groups + 1) (b :: rest)
      = (if b.toNat < 128 then
          (if groups = 0 ∧ top < b.toNat then throw .badNumber else pure b.toNat : Reader Nat)
        else do
          let n ← numberWithin top groups
          pure (b.toNat % 128 + 128 * n)) rest :=
  rfl

theorem reads_group {top groups n : Nat} (hn : n < 128) (htop : groups = 0 → n ≤ top) :
    Reads (numberWithin top (groups + 1)) (number n) n := by
  have hbyte : (UInt8.ofNat n).toNat = n := by
    rw [UInt8.toNat_ofNat', Nat.mod_eq_of_lt (by omega)]
  rw [number_of_lt hn]
  refine .cons rfl (fun rest => ?_) (.pure n)
  rw [numberWithin_cons, hbyte, if_pos hn, if_neg (by omega)]

/-- A number is read back if it needs no more groups than are allowed, and no more than the top group may hold. -/
theorem reads_numberWithin {top : Nat} (htop : top < 128) {groups n : Nat} (hn : n < (top + 1) * 128 ^ groups) :
    Reads (numberWithin top (groups + 1)) (number n) n := by
  induction groups generalizing n with
  | zero => exact reads_group (by omega) (by omega)
  | succ groups ih =>
      by_cases hlt : n < 128
      · exact reads_group hlt (by omega)
      · have hbyte : (UInt8.ofNat (n % 128 + 128)).toNat = n % 128 + 128 := by
          rw [UInt8.toNat_ofNat', Nat.mod_eq_of_lt (by omega)]
        have hrest : n / 128 < (top + 1) * 128 ^ groups := by
          rw [Nat.div_lt_iff_lt_mul (by decide), Nat.mul_assoc, ← Nat.pow_succ]
          exact hn
        have hvalue : (n % 128 + 128) % 128 + 128 * (n / 128) = n := by omega
        have hread := (ih hrest).map fun m => (n % 128 + 128) % 128 + 128 * m
        rw [hvalue] at hread
        rw [number_of_le (Nat.le_of_not_lt hlt)]
        refine .cons rfl (fun rest => ?_) hread
        rw [numberWithin_cons, hbyte, if_neg (by omega)]

theorem reads_number {n : Nat} (h : n < 2 ^ 64) : Reads readNumber (number n) n :=
  reads_numberWithin (by decide) h

theorem reads_kind {n : Nat} (h : n < 2 ^ 32) : Reads readKind (number n) n :=
  reads_numberWithin (by decide) h

/-- What is read after the length of a text. -/
theorem reads_utf8 (s : String) :
    Reads (do
      let bytes := (← get).take (Text.utf8 s).length
      if bytes.length < (Text.utf8 s).length then throw .endOfData
      modify (·.drop (Text.utf8 s).length)
      match Text.ofUtf8? bytes with
      | some s => return s
      | none => throw .badText : Reader String) (Text.utf8 s) s := by
  refine ⟨fun rest => ?_, fun part hpart hne => ?_⟩
  · simp only [bind, StateT.bind, get, getThe, MonadStateOf.get, StateT.get, Except.bind, pure, Except.pure, modify,
      modifyGet, MonadStateOf.modifyGet, StateT.modifyGet, List.take_left, List.drop_left, lt_irrefl, if_false,
      Text.ofUtf8?_utf8]
    rfl
  · have hshort : part.length < (Text.utf8 s).length :=
      lt_of_le_of_ne hpart.length_le fun heq => hne (hpart.eq_of_length heq)
    simp only [bind, StateT.bind, get, getThe, MonadStateOf.get, StateT.get, Except.bind, pure, Except.pure,
      List.take_of_length_le hshort.le, if_pos hshort]
    rfl

theorem reads_text {s : String} (h : s.utf8ByteSize < 2 ^ 64) : Reads readText (text s) s := by
  rw [← Text.length_utf8] at h
  exact (reads_number h).bind (reads_utf8 s)

section Parts

variable {α : Type}

theorem reads_optional {f : α → List UInt8} {part : Reader α} {a? : Option α}
    (h : ∀ a ∈ a?, Reads part (f a) a) : Reads (readOptional part) (optional f a?) a? := by
  cases a? with
  | none => exact .cons rfl (fun rest => rfl) (.pure none)
  | some a => exact .cons rfl (fun rest => rfl) ((h a rfl).map some)

theorem reads_member {members : List α} {k : Nat} {a : α} (hk : k < 2 ^ 32) (ha : members[k]? = some a) :
    Reads (readMember members) (number k) a := by
  rw [← List.append_nil (number k)]
  unfold readMember
  refine (reads_kind hk).bind ?_
  rw [ha]
  exact .pure a

end Parts

end Snapshot

/-! ## Instructions -/

/-- The numbers that are stored of a call: the length of the name, the number of parameters and the target. -/
def CallSite.words (site : CallSite) : List Nat :=
  site.callee.utf8ByteSize :: site.argc :: site.target.toList

/-- The numbers that are stored of the right-hand side of an assignment. -/
def Rhs.words : Rhs → List Nat
  | single x => [x.utf8ByteSize]
  | unary _ x => [x.utf8ByteSize]
  | binary _ x y => [x.utf8ByteSize, y.utf8ByteSize]
  | call site => site.words

/-- The numbers that are stored of an instruction: lengths of texts, numbers of parameters and targets. -/
def Instruction.words : Instruction → List Nat
  | goto t => [t]
  | branch x t => [x.utf8ByteSize, t]
  | assign x rhs => x.utf8ByteSize :: rhs.words
  | ret x => [x.utf8ByteSize]
  | param x name => x.utf8ByteSize :: name.toList.map String.utf8ByteSize
  | call site => site.words
  | stop => []
  | blank => []

/-- All numbers in code, and that of its instructions, are 64-bit words, as they are in memory. -/
def Code.WordSized (code : Code) : Prop :=
  code.length < 2 ^ 64 ∧ ∀ i ∈ code, ∀ n ∈ i.words, n < 2 ^ 64

namespace Snapshot

theorem reads_callSite {site : CallSite} (h : ∀ n ∈ site.words, n < 2 ^ 64) :
    Reads readCallSite (callSite site) site := by
  simp only [CallSite.words, List.forall_mem_cons, Option.mem_toList] at h
  obtain ⟨hcallee, hargc, htarget⟩ := h
  rw [callSite, List.append_assoc]
  have hread := reads_optional fun t ht => reads_number (htarget t ht)
  exact (reads_text hcallee).bind ((reads_number hargc).bind (hread.map (CallSite.mk site.callee site.argc)))

theorem reads_unaryOp (op : UnaryOp) : Reads (readMember UnaryOp.all) (number (UnaryOp.all.idxOf op)) op := by
  cases op <;> exact reads_member (by decide) (by decide)

theorem reads_binaryOp (op : BinaryOp) : Reads (readMember BinaryOp.all) (number (BinaryOp.all.idxOf op)) op := by
  cases op <;> exact reads_member (by decide) (by decide)

theorem reads_rhs {r : Rhs} (h : ∀ n ∈ r.words, n < 2 ^ 64) : Reads readRhs (rhs r) r := by
  cases r with
  | single x =>
      have hx := h x.utf8ByteSize (by simp [Rhs.words])
      exact (reads_kind (by decide)).bind ((reads_text hx).map Rhs.single)
  | unary op x =>
      have hx := h x.utf8ByteSize (by simp [Rhs.words])
      rw [rhs, List.append_assoc]
      exact (reads_kind (by decide)).bind ((reads_unaryOp op).bind ((reads_text hx).map (Rhs.unary op)))
  | binary op x y =>
      have hx := h x.utf8ByteSize (by simp [Rhs.words])
      have hy := h y.utf8ByteSize (by simp [Rhs.words])
      rw [rhs, List.append_assoc, List.append_assoc]
      exact (reads_kind (by decide)).bind
        ((reads_binaryOp op).bind ((reads_text hx).bind ((reads_text hy).map (Rhs.binary op x))))
  | call site => exact (reads_kind (by decide)).bind ((reads_callSite h).map Rhs.call)

theorem reads_instruction {i : Instruction} (h : ∀ n ∈ i.words, n < 2 ^ 64) :
    Reads readInstruction (instruction i) i := by
  cases i with
  | goto t =>
      have ht := h t (by simp [Instruction.words])
      exact (reads_kind (by decide)).bind ((reads_number ht).map Instruction.goto)
  | branch x t =>
      have hx := h x.utf8ByteSize (by simp [Instruction.words])
      have ht := h t (by simp [Instruction.words])
      rw [instruction, List.append_assoc]
      exact (reads_kind (by decide)).bind ((reads_text hx).bind ((reads_number ht).map (Instruction.branch x)))
  | assign x r =>
      simp only [Instruction.words, List.forall_mem_cons] at h
      rw [instruction, List.append_assoc]
      exact (reads_kind (by decide)).bind ((reads_text h.1).bind ((reads_rhs h.2).map (Instruction.assign x)))
  | ret x =>
      have hx := h x.utf8ByteSize (by simp [Instruction.words])
      exact (reads_kind (by decide)).bind ((reads_text hx).map Instruction.ret)
  | param x name =>
      simp only [Instruction.words, List.forall_mem_cons, List.forall_mem_map, Option.mem_toList] at h
      have hname := reads_optional fun s hs => reads_text (h.2 s hs)
      rw [instruction, List.append_assoc]
      exact (reads_kind (by decide)).bind ((reads_text h.1).bind (hname.map (Instruction.param x)))
  | call site => exact (reads_kind (by decide)).bind ((reads_callSite h).map Instruction.call)
  | stop =>
      rw [instruction, ← List.append_nil (number 6)]
      exact (reads_kind (by decide)).bind (.pure Instruction.stop)
  | blank =>
      rw [instruction, ← List.append_nil (number 7)]
      exact (reads_kind (by decide)).bind (.pure Instruction.blank)

theorem reads_instructions {code : Code} (h : ∀ i ∈ code, ∀ n ∈ i.words, n < 2 ^ 64) :
    Reads (readInstructions code.length) (code.flatMap instruction) code := by
  induction code with
  | nil => exact .pure []
  | cons i code ih =>
      rw [List.forall_mem_cons] at h
      exact (reads_instruction h.1).bind ((ih h.2).map (i :: ·))

theorem reads_snapshot {code : Code} (h : code.WordSized) :
    Reads (do readInstructions (← readNumber)) code.snapshot code :=
  (reads_number h.1).bind (reads_instructions h.2)

end Snapshot

/-! ## Code -/

namespace Code

theorem load_snapshot_append {code : Code} (h : code.WordSized) (suffix : List UInt8) :
    load (code.snapshot ++ suffix) = (code.validate.mapError .linear).map fun _ => code := by
  have hread : ofSnapshot (code.snapshot ++ suffix) = .ok code := by
    rw [ofSnapshot, StateT.run, (Snapshot.reads_snapshot h).whole suffix]
    rfl
  rw [load, hread]
  cases hvalid : code.validate with
  | error e => simp [Except.mapError, Except.map, bind, Except.bind, hvalid]
  | ok _ => simp [Except.mapError, Except.map, bind, Except.bind, hvalid, pure, Except.pure]

theorem load_cut {code : Code} (h : code.WordSized) {part : List UInt8} (hpart : part <+: code.snapshot)
    (hne : part ≠ code.snapshot) : load part = .error (.snapshot .endOfData) := by
  have hread : ofSnapshot part = .error .endOfData := by
    rw [ofSnapshot, StateT.run, (Snapshot.reads_snapshot h).cut part hpart hne]
    rfl
  rw [load, hread]
  rfl

theorem validate_of_load {bytes : List UInt8} {code : Code} (h : load bytes = .ok code) : code.validate = .ok () := by
  rw [load] at h
  cases hcode : ofSnapshot bytes with
  | error e => rw [hcode] at h; cases h
  | ok read =>
      rw [hcode] at h
      cases hvalid : read.validate with
      | error e =>
          simp only [Except.mapError, bind, Except.bind, hvalid] at h
          cases h
      | ok _ =>
          simp only [Except.mapError, bind, Except.bind, hvalid] at h
          cases h
          exact hvalid

/-- A snapshot gives its code back, whatever follows it, if the code is linear, and else the error of the first
instruction at fault; no strict prefix of it can be read; and whatever is loaded is linear. -/
theorem load_inverse_snapshot {code : Code} (hcode : code.WordSized) :
    (∀ suffix, (code.validate = .ok () → load (code.snapshot ++ suffix) = .ok code)
        ∧ ∀ e, code.validate = .error e → code.FirstOffence e ∧ load (code.snapshot ++ suffix) = .error (.linear e))
      ∧ (∀ part, part <+: code.snapshot → part ≠ code.snapshot → load part = .error (.snapshot .endOfData))
      ∧ ∀ bytes loaded, load bytes = .ok loaded → loaded.validate = .ok () := by
  refine ⟨fun suffix => ?_, fun part => load_cut hcode, fun bytes loaded => validate_of_load⟩
  rw [load_snapshot_append hcode]
  refine ⟨fun hvalid => by rw [hvalid]; rfl, fun e he => ⟨firstOffence_of_validate he, by rw [he]; rfl⟩⟩

/-- Code with the largest number that there is and a name of two bytes, which ends in a blank. -/
def blankAtEnd : Code :=
  [.goto 1, .assign "\u00e9" (.call ⟨"f", 2 ^ 64 - 1, some 0⟩), .blank]

theorem load_inverse_snapshot_blank :
    blankAtEnd.WordSized ∧ load (blankAtEnd.snapshot ++ [0, 255]) = .error (.linear (.blankRemains 2))
      ∧ load (blankAtEnd.snapshot.take 12) = .error (.snapshot .endOfData)
      ∧ load (snapshot [.goto 0] ++ [7]) = .ok [.goto 0] := by
  have hsized : blankAtEnd.WordSized := ⟨by decide, by decide +kernel⟩
  have hgoto : WordSized [.goto 0] := ⟨by decide, by decide⟩
  obtain ⟨hwhole, hcut, -⟩ := load_inverse_snapshot hsized
  refine ⟨hsized, ((hwhole _).2 _ (by decide)).2, hcut _ (List.take_prefix _ _) (by decide +kernel), ?_⟩
  exact ((load_inverse_snapshot hgoto).1 [7]).1 (by decide)

end Code

end Scriptlet.Ir
