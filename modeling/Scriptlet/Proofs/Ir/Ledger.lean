import Mathlib.Tactic
import Scriptlet.Proofs.Interpreter.Operands
import Scriptlet.Proofs.Ir.Machine

/-!
# Accounts of temporaries

Code is read from the first instruction to the last while an account is kept of the temporaries: how many there are so far,
and which of them still wait for being read. If the account comes out even, with nothing waiting where a jump or call goes
to, then every temporary is assigned once and read once, with straight code in between.
-/

namespace Scriptlet.Ir

open Interpreter (temp_injective toList_temp)

/-! ## Names of temporaries -/

/-- Texts of the form that names of temporaries have. -/
def isReserved (x : String) : Bool :=
  match x.toList with
  | '_' :: '_' :: 't' :: 'm' :: 'p' :: digits => !digits.isEmpty && digits.all Char.isDigit
  | _ => false

@[simp]
theorem isReserved_temp (n : Nat) : isReserved (temp n) = true := by
  have hne : Nat.toDigits 10 n ≠ [] := Nat.toDigits_ne_nil
  have hdigits : (Nat.toDigits 10 n).all Char.isDigit = true :=
    List.all_eq_true.2 fun c hc => Nat.isDigit_of_mem_toDigits (by decide) (by decide) hc
  rw [isReserved, toList_temp]
  simp [hne, hdigits]

@[simp]
theorem isReserved_missing : isReserved missing = false :=
  rfl

namespace Instruction

/-- The operands that an instruction reads. -/
def operands : Instruction → List String
  | branch x _ => [x]
  | assign _ (.single x) => [x]
  | assign _ (.unary _ x) => [x]
  | assign _ (.binary _ x y) => [x, y]
  | ret x => [x]
  | param x _ => [x]
  | _ => []

/-- The left-hand side of an assignment. -/
def assigned? : Instruction → Option String
  | assign x _ => some x
  | _ => none

/-- Instructions that leave the straight way or end it. -/
def transfers : Instruction → Bool
  | goto _ => true
  | branch _ _ => true
  | ret _ => true
  | stop => true
  | _ => false

/-- An instruction passes a parameter under a reserved name. -/
def passesReserved : Instruction → Bool
  | param _ (some name) => isReserved name
  | _ => false

end Instruction

/-! ## Accounts -/

/-- How many temporaries were assigned so far, and those that were not read yet. -/
structure Ledger where
  next : Nat
  waiting : List String

/-- Reads an operand. A temporary is read only if it waits for that. -/
def spend (waiting : List String) (x : String) : Option (List String) :=
  if isReserved x then
    if x ∈ waiting then some (waiting.erase x) else none
  else some waiting

namespace Ledger

/-- The account after an instruction; none if a temporary is read that does not wait, if one waits where control leaves the
straight way, or if a reserved name is bound that is not that of the next temporary. -/
def step (l : Ledger) (i : Instruction) : Option Ledger :=
  match i.operands.foldlM spend l.waiting with
  | none => none
  | some waiting =>
    if i.passesReserved || i.transfers && !waiting.isEmpty then none
    else match i.assigned?.filter isReserved with
      | none => some ⟨l.next, waiting⟩
      | some x => if x = temp l.next then some ⟨l.next + 1, waiting ++ [x]⟩ else none

/-- The account after code. -/
def scan (l : Ledger) (code : Code) : Option Ledger :=
  code.foldlM step l

theorem scan_append {l l' : Ledger} {code : Code} (h : l.scan code = some l') (more : Code) :
    l.scan (code ++ more) = l'.scan more := by
  rw [scan, List.foldlM_append, ← scan, h]
  rfl

theorem scan_singleton (l : Ledger) (i : Instruction) : l.scan [i] = l.step i := by
  rw [scan, List.foldlM_cons]
  cases l.step i <;> rfl

theorem exists_scan_of_append {l l' : Ledger} {code more : Code} (h : l.scan (code ++ more) = some l') :
    ∃ between, l.scan code = some between ∧ between.scan more = some l' := by
  rw [scan, List.foldlM_append] at h
  exact Option.bind_eq_some_iff.1 h

/-- Everything that an instruction does to the account. -/
theorem cases_of_step {l l' : Ledger} {i : Instruction} (h : l.step i = some l') :
    ∃ waiting, i.operands.foldlM spend l.waiting = some waiting ∧ i.passesReserved = false
      ∧ (i.transfers = true → waiting = [])
      ∧ ((i.assigned? = some (temp l.next) ∧ l' = ⟨l.next + 1, waiting ++ [temp l.next]⟩)
        ∨ (∀ x, i.assigned? = some x → isReserved x = false) ∧ l' = ⟨l.next, waiting⟩) := by
  rw [step] at h
  split at h
  · cases h
  · rename_i waiting hwaiting
    split at h
    · cases h
    · rename_i hguard
      simp only [Bool.or_eq_true, Bool.and_eq_true, Bool.not_eq_true', not_or, not_and, Bool.not_eq_true,
        Bool.not_eq_false, List.isEmpty_iff] at hguard
      refine ⟨waiting, hwaiting, hguard.1, hguard.2, ?_⟩
      split at h
      · rename_i hassigned
        cases h
        refine .inr ⟨fun x hx => ?_, rfl⟩
        rw [hx, Option.filter_eq_none_iff] at hassigned
        simpa using hassigned
      · rename_i x hassigned
        split at h
        · rename_i hx
          cases h
          subst hx
          exact .inl ⟨(Option.filter_eq_some_iff.1 hassigned).1, rfl⟩
        · cases h

/-- No temporary waits twice, and none that is still to come waits. -/
structure Sound (l : Ledger) : Prop where
  nodup : l.waiting.Nodup
  older : ∀ x ∈ l.waiting, ∃ m < l.next, x = temp m

end Ledger

section Spending

variable {xs waiting waiting' : List String}

/-- What is left when operands were read: all that waited but for these operands. Those of them that are temporaries did
wait, and each is read once. -/
theorem spent (hnodup : waiting.Nodup) (h : xs.foldlM spend waiting = some waiting') :
    waiting'.Sublist waiting ∧ ∀ x, isReserved x = true →
      (x ∈ waiting' ↔ x ∈ waiting ∧ x ∉ xs) ∧ (x ∈ xs → x ∈ waiting ∧ xs.count x = 1) := by
  induction xs generalizing waiting with
  | nil =>
      cases h
      exact ⟨.refl _, by simp⟩
  | cons y xs ih =>
      rw [List.foldlM_cons, Option.bind_eq_bind, Option.bind_eq_some_iff] at h
      obtain ⟨between, hy, hrest⟩ := h
      rw [spend] at hy
      split at hy
      · rename_i hreserved
        split at hy
        · rename_i hmem
          cases hy
          obtain ⟨hsublist, hxs⟩ := ih (hnodup.erase y) hrest
          refine ⟨hsublist.trans List.erase_sublist, fun x hx => ?_⟩
          obtain ⟨hleft, hread⟩ := hxs x hx
          rw [hnodup.mem_erase_iff] at hleft hread
          rw [hleft, List.mem_cons, List.count_cons]
          by_cases hxy : x = y
          · subst hxy
            have hnot : x ∉ xs := fun hin => (hread hin).1.1 rfl
            simp [hmem, List.count_eq_zero_of_not_mem hnot]
          · simpa [hxy, Ne.symm hxy] using hread
        · cases hy
      · rename_i hfree
        cases hy
        obtain ⟨hsublist, hxs⟩ := ih hnodup hrest
        refine ⟨hsublist, fun x hx => ?_⟩
        have hxy : x ≠ y := by
          rintro rfl
          exact hfree hx
        obtain ⟨hleft, hread⟩ := hxs x hx
        rw [hleft, List.mem_cons, List.count_cons]
        simpa [hxy, Ne.symm hxy] using hread

end Spending

namespace Ledger

section Steps

variable {l l' : Ledger} {i : Instruction}

theorem sound_start : Sound ⟨0, []⟩ :=
  ⟨.nil, by simp⟩

theorem Sound.temp_next (hl : l.Sound) : temp l.next ∉ l.waiting := by
  intro hmem
  obtain ⟨m, hlt, hm⟩ := hl.older _ hmem
  exact hlt.ne (temp_injective hm).symm

theorem Sound.step (hl : l.Sound) (h : l.step i = some l') : l'.Sound := by
  obtain ⟨waiting, hspend, -, -, hassigned⟩ := cases_of_step h
  obtain ⟨hsublist, -⟩ := spent hl.nodup hspend
  have hnodup : waiting.Nodup := hl.nodup.sublist hsublist
  rcases hassigned with ⟨-, rfl⟩ | ⟨-, rfl⟩
  · refine ⟨List.nodup_append_comm.1 (List.nodup_cons.2 ⟨fun hmem => hl.temp_next (hsublist.mem hmem), hnodup⟩), ?_⟩
    intro x hx
    rcases List.mem_append.1 hx with hx | hx
    · obtain ⟨m, hlt, hm⟩ := hl.older x (hsublist.mem hx)
      exact ⟨m, Nat.lt_succ_of_lt hlt, hm⟩
    · exact ⟨l.next, Nat.lt_succ_self _, List.mem_singleton.1 hx⟩
  · exact ⟨hnodup, fun x hx => hl.older x (hsublist.mem hx)⟩

/-- Which temporaries wait after an instruction. -/
theorem Sound.waiting_iff (hl : l.Sound) (h : l.step i = some l') {m : Nat} :
    temp m ∈ l'.waiting ↔ (temp m ∈ l.waiting ∧ temp m ∉ i.operands) ∨ (m = l.next ∧ l'.next = l.next + 1) := by
  obtain ⟨waiting, hspend, -, -, hassigned⟩ := cases_of_step h
  have hleft := ((spent hl.nodup hspend).2 (temp m) (isReserved_temp m)).1
  rcases hassigned with ⟨-, rfl⟩ | ⟨-, rfl⟩
  · rw [List.mem_append, hleft, List.mem_singleton]
    simp only [and_true]
    exact or_congr_right ⟨fun heq => temp_injective heq, fun heq => by rw [heq]⟩
  · simp [hleft]

theorem Sound.of_mem_operands (hl : l.Sound) (h : l.step i = some l') {x : String} (hx : isReserved x = true)
    (hmem : x ∈ i.operands) : x ∈ l.waiting ∧ i.operands.count x = 1 := by
  obtain ⟨waiting, hspend, -⟩ := cases_of_step h
  exact ((spent hl.nodup hspend).2 x hx).2 hmem

theorem next_of_step (h : l.step i = some l') :
    (l'.next = l.next ∧ ∀ x, i.assigned? = some x → isReserved x = false)
      ∨ l'.next = l.next + 1 ∧ i.assigned? = some (temp l.next) := by
  obtain ⟨waiting, -, -, -, ⟨hassigned, rfl⟩ | ⟨hassigned, rfl⟩⟩ := cases_of_step h
  · exact .inr ⟨rfl, hassigned⟩
  · exact .inl ⟨rfl, hassigned⟩

theorem waiting_of_transfers (h : l.step i = some l') (hi : i.transfers = true) : l'.waiting = [] := by
  obtain ⟨waiting, -, -, htransfers, ⟨hassigned, rfl⟩ | ⟨-, rfl⟩⟩ := cases_of_step h
  · cases i <;> cases hi <;> cases hassigned
  · exact htransfers hi

end Steps

end Ledger

/-! ## Even accounts -/

/-- The accounts at all places of code, of which the last one is even after `n` temporaries. Where jumps and calls go to
nothing waits. -/
structure Booked (code : Code) (n : Nat) (account : Nat → Ledger) : Prop where
  first : account 0 = ⟨0, []⟩
  step : ∀ place i, code[place]? = some i → (account place).step i = some (account (place + 1))
  last : account code.length = ⟨n, []⟩
  target : ∀ i ∈ code, ∀ t, i.target? = some t → (account t).waiting = []

/-- A temporary that is assigned at one place only and read at one place only, by one operand. The place of reading comes
later, straight code leads to it, and nothing jumps in between. -/
structure UsedOnce (code : Code) (x : String) (assigned read : Nat) : Prop where
  later : assigned < read
  assigned_iff : ∀ place, (∃ i, code[place]? = some i ∧ i.assigned? = some x) ↔ place = assigned
  read_iff : ∀ place, (∃ i, code[place]? = some i ∧ x ∈ i.operands) ↔ place = read
  once : ∀ i, code[read]? = some i → i.operands.count x = 1
  straight : ∀ place i, assigned < place → place < read → code[place]? = some i → i.transfers = false
  unreached : ∀ i ∈ code, ∀ t, i.target? = some t → ¬ (assigned < t ∧ t ≤ read)

namespace Booked

variable {code : Code} {n : Nat} {account : Nat → Ledger} {place : Nat}

theorem exists_step (h : Booked code n account) (hlt : place < code.length) :
    ∃ i, code[place]? = some i ∧ (account place).step i = some (account (place + 1)) :=
  ⟨code[place], List.getElem?_eq_getElem hlt, h.step place _ (List.getElem?_eq_getElem hlt)⟩

theorem sound (h : Booked code n account) (hle : place ≤ code.length) : (account place).Sound := by
  induction place with
  | zero => exact h.first ▸ Ledger.sound_start
  | succ place ih =>
      obtain ⟨i, -, hstep⟩ := h.exists_step hle
      exact (ih (Nat.le_of_succ_le hle)).step hstep

theorem next_le (h : Booked code n account) {place' : Nat} (hle : place ≤ place') (hlt : place' ≤ code.length) :
    (account place).next ≤ (account place').next := by
  induction place', hle using Nat.le_induction with
  | base => exact Nat.le_refl _
  | succ place' _ ih =>
      obtain ⟨i, -, hstep⟩ := h.exists_step hlt
      have hnext := Ledger.next_of_step hstep
      have hbefore := ih (Nat.le_of_succ_le hlt)
      omega

/-- A temporary is assigned at a place. -/
def Assigns (code : Code) (account : Nat → Ledger) (m place : Nat) : Prop :=
  place < code.length ∧ (account place).next = m ∧ (account (place + 1)).next = m + 1

theorem exists_assigns (h : Booked code n account) {m : Nat} (hle : place ≤ code.length)
    (hm : m < (account place).next) : ∃ d, Assigns code account m d := by
  induction place with
  | zero =>
      rw [h.first] at hm
      exact absurd hm (Nat.not_lt_zero m)
  | succ place ih =>
      obtain ⟨i, -, hstep⟩ := h.exists_step hle
      by_cases hlt : m < (account place).next
      · exact ih (Nat.le_of_succ_le hle) hlt
      · have hnext := Ledger.next_of_step hstep
        exact ⟨place, hle, by omega, by omega⟩

theorem lt_of_lt (h : Booked code n account) {m m' d d' : Nat} (hd : Assigns code account m d)
    (hd' : Assigns code account m' d') (hlt : d < d') : m < m' := by
  have hle := h.next_le hlt hd'.1.le
  rwa [hd.2.2, hd'.2.1] at hle

theorem eq_of_assigns (h : Booked code n account) {m d d' : Nat} (hd : Assigns code account m d)
    (hd' : Assigns code account m d') : d = d' := by
  rcases Nat.lt_trichotomy d d' with hlt | heq | hlt
  · exact absurd (h.lt_of_lt hd hd' hlt) (Nat.lt_irrefl m)
  · exact heq
  · exact absurd (h.lt_of_lt hd' hd hlt) (Nat.lt_irrefl m)

theorem lt_of_assigns (h : Booked code n account) {m m' d d' : Nat} (hd : Assigns code account m d)
    (hd' : Assigns code account m' d') (hlt : m < m') : d < d' := by
  by_contra hle
  rcases (Nat.le_of_not_lt hle).eq_or_lt with rfl | hlt'
  · exact hlt.ne (hd.2.1.symm.trans hd'.2.1)
  · exact hlt.not_gt (h.lt_of_lt hd' hd hlt')

theorem assigns_iff (h : Booked code n account) {m : Nat} :
    (∃ i, code[place]? = some i ∧ i.assigned? = some (temp m)) ↔ Assigns code account m place := by
  constructor
  · rintro ⟨i, hi, hassigned⟩
    rcases Ledger.next_of_step (h.step place i hi) with ⟨-, hfree⟩ | ⟨hnext, htemp⟩
    · have hfalse := hfree _ hassigned
      rw [isReserved_temp] at hfalse
      cases hfalse
    · rw [hassigned, Option.some.injEq] at htemp
      obtain rfl := temp_injective htemp
      exact ⟨(List.getElem?_eq_some_iff.1 hi).1, rfl, hnext⟩
  · rintro ⟨hlt, hbefore, hafter⟩
    obtain ⟨i, hi, hstep⟩ := h.exists_step hlt
    have hnext := Ledger.next_of_step hstep
    rw [hbefore, hafter] at hnext
    exact ⟨i, hi, (hnext.resolve_left (by omega)).2⟩

/-- A temporary that waits is read somewhere, and waits until then. -/
theorem exists_read (h : Booked code n account) {x : String} (hle : place ≤ code.length)
    (hx : x ∈ (account place).waiting) :
    ∃ u, place ≤ u ∧ u < code.length ∧ (∀ k, place ≤ k → k ≤ u → x ∈ (account k).waiting)
      ∧ x ∉ (account (u + 1)).waiting := by
  generalize hrest : code.length - place = rest
  induction rest generalizing place with
  | zero =>
      obtain rfl : place = code.length := by omega
      rw [h.last] at hx
      exact absurd hx List.not_mem_nil
  | succ rest ih =>
      have hlt : place < code.length := by omega
      by_cases hnext : x ∈ (account (place + 1)).waiting
      · obtain ⟨u, hu, hlast, hwaits, hgone⟩ := ih hlt hnext (by omega)
        refine ⟨u, Nat.le_of_succ_le hu, hlast, fun k hk hku => ?_, hgone⟩
        rcases hk.eq_or_lt with rfl | hk
        · exact hx
        · exact hwaits k hk hku
      · refine ⟨place, Nat.le_refl _, hlt, fun k hk hku => ?_, hnext⟩
        obtain rfl := Nat.le_antisymm hku hk
        exact hx

/-- What was read does not wait again. -/
theorem not_waiting_of_le (h : Booked code n account) {m place' : Nat} (hm : m < (account place).next)
    (hgone : temp m ∉ (account place).waiting) (hle : place ≤ place') (hlt : place' ≤ code.length) :
    temp m ∉ (account place').waiting := by
  induction place', hle using Nat.le_induction with
  | base => exact hgone
  | succ place' hle' ih =>
      obtain ⟨i, -, hstep⟩ := h.exists_step hlt
      have hnext := h.next_le hle' (Nat.le_of_succ_le hlt)
      rw [(h.sound (Nat.le_of_succ_le hlt)).waiting_iff hstep]
      rintro (⟨hmem, -⟩ | ⟨rfl, -⟩)
      · exact ih (Nat.le_of_succ_le hlt) hmem
      · omega

/-- A temporary waits from where it is assigned to where it is read. -/
theorem exists_waiting_iff (h : Booked code n account) {m d : Nat} (hd : Assigns code account m d) :
    ∃ u, d < u ∧ u < code.length ∧ ∀ k ≤ code.length, temp m ∈ (account k).waiting ↔ d < k ∧ k ≤ u := by
  obtain ⟨hlt, hbefore, hafter⟩ := hd
  obtain ⟨i, -, hstep⟩ := h.exists_step hlt
  have hwaits : temp m ∈ (account (d + 1)).waiting :=
    ((h.sound hlt.le).waiting_iff hstep).2 (.inr ⟨hbefore.symm, by rw [hafter, hbefore]⟩)
  obtain ⟨u, hu, hulast, huwaits, hgone⟩ := h.exists_read hlt hwaits
  refine ⟨u, hu, hulast, fun k hk => ⟨fun hmem => ⟨?_, ?_⟩, fun hin => huwaits k hin.1 hin.2⟩⟩
  · by_contra hle
    obtain ⟨m', hlt', hm'⟩ := (h.sound hk).older _ hmem
    have hnext := h.next_le (Nat.le_of_not_lt hle) hlt.le
    rw [temp_injective hm'] at hbefore
    omega
  · by_contra hle
    have hnext := h.next_le (Nat.succ_le_succ (Nat.le_of_succ_le hu)) hulast
    rw [hafter] at hnext
    exact h.not_waiting_of_le (Nat.lt_of_succ_le hnext) hgone (Nat.lt_of_not_le hle) hk hmem

/-- An instruction that reads a temporary is the last one before which it waits. -/
theorem reads_iff (h : Booked code n account) {m d u : Nat} (hd : Assigns code account m d) (hdu : d < u)
    (hwaiting : ∀ k ≤ code.length, temp m ∈ (account k).waiting ↔ d < k ∧ k ≤ u) {i : Instruction}
    (hi : code[place]? = some i) : temp m ∈ i.operands ↔ place = u := by
  have hlt := (List.getElem?_eq_some_iff.1 hi).1
  have hstep := h.step place i hi
  have hsound := h.sound hlt.le
  have hafter := hsound.waiting_iff hstep (m := m)
  have hbefore := hsound.of_mem_operands hstep (isReserved_temp m)
  rw [hwaiting _ hlt.le] at hbefore
  rw [hwaiting _ hlt.le, hwaiting _ hlt] at hafter
  constructor
  · intro hmem
    have hin := (hbefore hmem).1
    have hgone : ¬ (d < place + 1 ∧ place + 1 ≤ u) := by
      rw [hafter]
      rintro (⟨-, hnot⟩ | ⟨rfl, -⟩)
      · exact hnot hmem
      · have hnext := h.next_le hin.1 hlt.le
        rw [hd.2.2] at hnext
        omega
    omega
  · rintro rfl
    by_contra hnot
    have hstill := hafter.2 (.inl ⟨⟨hdu, Nat.le_refl _⟩, hnot⟩)
    omega

theorem usedOnce (h : Booked code n account) {m d : Nat} (hd : Assigns code account m d) :
    ∃ u, UsedOnce code (temp m) d u := by
  obtain ⟨u, hdu, hulast, hwaiting⟩ := h.exists_waiting_iff hd
  have hnever : ∀ k, d < k → k ≤ u → (account k).waiting ≠ [] := by
    intro k hk hku hnone
    have hmem := (hwaiting k (by omega)).2 ⟨hk, hku⟩
    rw [hnone] at hmem
    exact absurd hmem List.not_mem_nil
  refine ⟨u, hdu, fun place => ?_, fun place => ⟨?_, ?_⟩, fun i hi => ?_, fun place i hplace hread hi => ?_, ?_⟩
  · rw [h.assigns_iff]
    exact ⟨fun hplace => h.eq_of_assigns hplace hd, fun hplace => hplace ▸ hd⟩
  · rintro ⟨i, hi, hmem⟩
    exact (h.reads_iff hd hdu hwaiting hi).1 hmem
  · rintro rfl
    have hi := List.getElem?_eq_getElem hulast
    exact ⟨_, hi, (h.reads_iff hd hdu hwaiting hi).2 rfl⟩
  · have hmem := (h.reads_iff hd hdu hwaiting hi).2 rfl
    exact ((h.sound hulast.le).of_mem_operands (h.step u i hi) (isReserved_temp m) hmem).2
  · by_contra htransfers
    have hnone := Ledger.waiting_of_transfers (h.step place i hi) (by simpa using htransfers)
    exact hnever (place + 1) (by omega) hread hnone
  · exact fun i hi t ht hin => hnever t hin.1 hin.2 (h.target i hi t ht)

/-- All temporaries are used once, in the order in which they are assigned. -/
theorem exists_usedOnce (h : Booked code n account) :
    ∃ assigned read : Nat → Nat, (∀ m < n, UsedOnce code (temp m) (assigned m) (read m))
      ∧ ∀ m m', m < m' → m' < n → assigned m < assigned m' := by
  have hall : ∀ m, ∃ d u, m < n → Assigns code account m d ∧ UsedOnce code (temp m) d u := by
    intro m
    by_cases hm : m < n
    · obtain ⟨d, hd⟩ := h.exists_assigns (Nat.le_refl _) (m := m) (by rwa [h.last])
      obtain ⟨u, hu⟩ := h.usedOnce hd
      exact ⟨d, u, fun _ => ⟨hd, hu⟩⟩
    · exact ⟨0, 0, fun hlt => absurd hlt hm⟩
  choose assigned read hused using hall
  refine ⟨assigned, read, fun m hm => (hused m hm).2, fun m m' hlt hm' => ?_⟩
  exact h.lt_of_assigns (hused m (hlt.trans hm')).1 (hused m' hm').1 hlt

/-- No reserved name occurs but those of the temporaries. -/
theorem exists_temp (h : Booked code n account) {i : Instruction} (hi : i ∈ code) {x : String}
    (hx : x ∈ i.operands ++ i.binds?.toList) (hreserved : isReserved x = true) : ∃ m < n, x = temp m := by
  obtain ⟨place, hplace⟩ := List.getElem?_of_mem hi
  have hlt := (List.getElem?_eq_some_iff.1 hplace).1
  have hstep := h.step place i hplace
  have hle : ∀ k ≤ code.length, (account k).next ≤ n := by
    intro k hk
    have hnext := h.next_le hk (Nat.le_refl _)
    rwa [h.last] at hnext
  rcases List.mem_append.1 hx with hmem | hbinds
  · obtain ⟨hwaits, -⟩ := (h.sound hlt.le).of_mem_operands hstep hreserved hmem
    obtain ⟨m, hm, rfl⟩ := (h.sound hlt.le).older x hwaits
    exact ⟨m, hm.trans_le (hle place hlt.le), rfl⟩
  · rw [Option.mem_toList] at hbinds
    cases i with
    | assign y rhs =>
        cases hbinds
        rcases Ledger.next_of_step hstep with ⟨-, hfree⟩ | ⟨hnext, htemp⟩
        · rw [hfree x rfl] at hreserved
          cases hreserved
        · have hlast := hle (place + 1) hlt
          exact ⟨(account place).next, by omega, Option.some.inj htemp⟩
    | param y name =>
        cases hbinds
        obtain ⟨-, -, hpasses, -⟩ := Ledger.cases_of_step hstep
        rw [Instruction.passesReserved, hreserved] at hpasses
        cases hpasses
    | _ => cases hbinds

end Booked

/-- No temporary waits at a place, and `n` were assigned before it. -/
def Clear (code : Code) (place n : Nat) : Prop :=
  Ledger.scan ⟨0, []⟩ (code.take place) = some ⟨n, []⟩

theorem booked_of_clear {code : Code} {n : Nat} (hlast : Clear code code.length n)
    (htarget : ∀ i ∈ code, ∀ t, i.target? = some t → ∃ m, Clear code t m) : ∃ account, Booked code n account := by
  have hall : ∀ place, ∃ l, Ledger.scan ⟨0, []⟩ (code.take place) = some l := by
    intro place
    rw [Clear, List.take_length, ← List.take_append_drop place code] at hlast
    obtain ⟨l, hl, -⟩ := Ledger.exists_scan_of_append hlast
    exact ⟨l, hl⟩
  choose account haccount using hall
  refine ⟨account, Option.some.inj ((haccount 0).symm.trans rfl), fun place i hi => ?_,
    Option.some.inj ((haccount _).symm.trans hlast), fun i hi t ht => ?_⟩
  · have hnext := haccount (place + 1)
    rwa [List.take_add_one, hi, Option.toList_some, Ledger.scan_append (haccount place), Ledger.scan_singleton] at hnext
  · obtain ⟨m, hm⟩ := htarget i hi t ht
    rw [Option.some.inj ((haccount t).symm.trans hm)]

end Scriptlet.Ir
