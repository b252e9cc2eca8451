import Mathlib.Tactic
import Scriptlet.Proofs.Ir.Linearization

/-!
# The linear form of code

Code has a linear form exactly if behind every target there is an instruction that is kept. The linear form has the
instructions that are kept, each target being the number of the first of them at or after the old one, and it is its
own linear form. Where there is none, the error names the first instruction at fault: one whose target is not in the
code at all, or else one with nothing but blanks from its target on.
-/

namespace Scriptlet.Ir

theorem Instruction.mapTarget_eq_self {f : Nat → Nat} {i : Instruction} (h : ∀ t, i.target? = some t → f t = t) :
    i.mapTarget f = i := by
  have hsite : ∀ site : CallSite, (∀ t, site.target = some t → f t = t) →
      { site with target := site.target.map f } = site := by
    rintro ⟨callee, argc, _ | t⟩ ht
    · rfl
    · rw [Option.map_some, ht t rfl]
  cases i with
  | goto t => rw [mapTarget, h t rfl]
  | branch x t => rw [mapTarget, h t rfl]
  | assign x rhs =>
      cases rhs with
      | call site => rw [mapTarget, hsite site h]
      | _ => rfl
  | call site => rw [mapTarget, hsite site h]
  | _ => rfl

theorem Instruction.live_of_target? {i : Instruction} {t : Nat} (h : i.target? = some t) : i.live = true := by
  by_contra hblank
  rw [target?_of_isBlank (by simpa [live] using hblank)] at h
  cases h

namespace Code

/-! ## Forwarding -/

/-- The first instruction at or after a place that is kept stands at `k`. -/
structure FirstLive (code : Code) (place k : Nat) : Prop where
  le : place ≤ k
  live : ∃ i, code[k]? = some i ∧ i.live = true
  blanks : ∀ j i, place ≤ j → j < k → code[j]? = some i → i.live = false

/-- An instruction that is kept as it is, but for its target: that is now the number of the first instruction at or
after the old target that is kept. -/
def Forwards (code : Code) (i kept : Instruction) : Prop :=
  ∃ f : Nat → Nat, kept = i.mapTarget f
    ∧ ∀ t, i.target? = some t → ∃ k, code.FirstLive t k ∧ f t = code.liveBefore k

theorem liveBefore_add (code : Code) (place n : Nat) :
    code.liveBefore (place + n) = code.liveBefore place + ((code.drop place).take n).countP Instruction.live := by
  rw [liveBefore, List.take_add, List.countP_append]
  rfl

theorem exists_firstLive {code : Code} {place : Nat} (h : ∃ i ∈ code.drop place, i.live = true) :
    ∃ k, code.FirstLive place k ∧ code.liveBefore place = code.liveBefore k := by
  have hlt : (code.drop place).findIdx Instruction.live < (code.drop place).length := List.findIdx_lt_length.2 h
  have hblanks : ∀ i ∈ (code.drop place).take ((code.drop place).findIdx Instruction.live), i.live = false := by
    intro i hi
    obtain ⟨j, hj, rfl⟩ := List.mem_take_iff_getElem.1 hi
    have hfirst := List.not_of_lt_findIdx (lt_of_lt_of_le hj (min_le_left _ _))
    simpa using hfirst
  refine ⟨place + (code.drop place).findIdx Instruction.live, ⟨Nat.le_add_right _ _, ?_, ?_⟩, ?_⟩
  · refine ⟨_, ?_, List.findIdx_getElem (w := hlt)⟩
    rw [← List.getElem?_drop]
    exact List.getElem?_eq_getElem hlt
  · intro j i hle hj hi
    obtain ⟨n, rfl⟩ := Nat.exists_eq_add_of_le hle
    rw [← List.getElem?_drop] at hi
    refine hblanks i (List.mem_of_getElem? (i := n) ?_)
    rw [List.getElem?_take_of_lt (Nat.lt_of_add_lt_add_left hj), hi]
  · rw [liveBefore_add, List.countP_eq_zero.2 (by simpa using hblanks), Nat.add_zero]

theorem forwards_of_live {code : Code} {i : Instruction}
    (h : ∀ t, i.target? = some t → ∃ k ∈ code.drop t, k.live = true) : code.Forwards i (i.mapTarget code.liveBefore) :=
  ⟨code.liveBefore, rfl, fun t ht => exists_firstLive (h t ht)⟩

/-! ## Code that is linear already -/

theorem liveBefore_of_live {code : Code} (hlive : ∀ i ∈ code, i.live = true) {place : Nat} (h : place ≤ code.length) :
    code.liveBefore place = place := by
  have hall : (code.take place).countP Instruction.live = (code.take place).length :=
    List.countP_eq_length.2 fun i hi => hlive i (List.mem_of_mem_take hi)
  rw [List.length_take_of_le h] at hall
  exact hall

/-- Code without blanks whose targets are in it is its own linear form. -/
theorem linearize_eq_self {code : Code} (hlive : ∀ i ∈ code, i.live = true) (hbelow : TargetsBelow code.length code) :
    code.linearize = .ok code := by
  have htargets : ∀ i ∈ code, ∀ t, i.target? = some t → ∃ k ∈ code.drop t, k.live = true := by
    intro i hi t ht
    have hlt := hbelow i hi t ht
    exact ⟨code[t], List.mem_of_getElem? (i := 0) (by simp [hlt]), hlive _ (List.getElem_mem hlt)⟩
  have hself : code.map (Instruction.mapTarget code.liveBefore) = code.map id := by
    refine List.map_congr_left fun i hi => Instruction.mapTarget_eq_self fun t ht => ?_
    exact liveBefore_of_live hlive (hbelow i hi t ht).le
  rw [(linearize_of_targets htargets).1, relocated, List.filter_eq_self.2 hlive, hself, List.map_id]

/-! ## Targets at fault -/

/-- The first target in code of which something holds, the instruction that has it, and those before. -/
structure FirstTarget (P : Nat → Prop) (code before : Code) (i : Instruction) (target : Nat) : Prop where
  split : ∃ after, code = before ++ i :: after
  has : i.target? = some target
  holds : P target
  earlier : ∀ k ∈ before, ∀ t, k.target? = some t → ¬ P t

/-- From a place on there is nothing but blanks. -/
def Trailing (code : Code) (place : Nat) : Prop :=
  ∀ i ∈ code.drop place, i.live = false

theorem FirstTarget.cons {P : Nat → Prop} {code before : Code} {target : Nat} {i k : Instruction}
    (hk : ∀ t, k.target? = some t → ¬ P t) (h : FirstTarget P code before i target) :
    FirstTarget P (k :: code) (k :: before) i target := by
  obtain ⟨⟨after, rfl⟩, hi, hP, hbefore⟩ := h
  exact ⟨⟨after, rfl⟩, hi, hP, List.forall_mem_cons.2 ⟨hk, hbefore⟩⟩

theorem firstTarget_of_relocateFrom {code rest : Code} {id : Nat} {e : LinearError}
    (h : relocateFrom code id rest = .error e) :
    ∃ before i target, FirstTarget (code.length ≤ ·) rest before i target
      ∧ e = .danglingTarget (id + before.countP Instruction.live) target := by
  induction rest generalizing id with
  | nil => cases h
  | cons i rest ih =>
      -- an instruction that is not at fault goes before the one that is
      have hlater : ∀ {id'}, (∀ t, i.target? = some t → ¬ code.length ≤ t) → relocateFrom code id' rest = .error e →
          id' = id + [i].countP Instruction.live →
          ∃ before k target, FirstTarget (code.length ≤ ·) (i :: rest) before k target
            ∧ e = .danglingTarget (id + before.countP Instruction.live) target := by
        rintro _ hi hrest rfl
        obtain ⟨before, k, target, hfirst, rfl⟩ := ih hrest
        refine ⟨i :: before, k, target, hfirst.cons hi, ?_⟩
        rw [Nat.add_assoc, ← List.countP_append, List.singleton_append]
      rw [relocateFrom] at h
      cases hblank : i.isBlank with
      | true =>
          rw [if_pos hblank] at h
          exact hlater (by simp [Instruction.target?_of_isBlank hblank]) h (by simp [Instruction.live, hblank])
      | false =>
          have hlive : [i].countP Instruction.live = 1 := by simp [Instruction.live, hblank]
          rw [if_neg (by simp [hblank])] at h
          cases ht : i.target? with
          | none =>
              rw [ht] at h
              cases hrest : relocateFrom code (id + 1) rest with
              | ok tail => rw [hrest] at h; cases h
              | error e' =>
                  rw [hrest] at h
                  cases h
                  exact hlater (by simp [ht]) hrest (by rw [hlive])
          | some t =>
              rw [ht] at h
              by_cases hlt : t < code.length
              · simp only [if_pos hlt] at h
                cases hrest : relocateFrom code (id + 1) rest with
                | ok tail => rw [hrest] at h; cases h
                | error e' =>
                    rw [hrest] at h
                    cases h
                    exact hlater (by simp [ht, hlt]) hrest (by rw [hlive])
              · simp only [if_neg hlt] at h
                cases h
                exact ⟨[], i, t, ⟨⟨rest, rfl⟩, ht, Nat.le_of_not_lt hlt, by simp⟩, rfl⟩

theorem trailing_iff {code : Code} {place : Nat} :
    code.Trailing place ↔ code.countP Instruction.live ≤ code.liveBefore place := by
  have hall := countP_live code place
  have hzero : (code.drop place).countP Instruction.live = 0 ↔ code.Trailing place := by
    rw [List.countP_eq_zero]
    simp [Trailing]
  rw [← hzero]
  omega

/-- Where relocation succeeds but its result is not linear, a target has nothing but blanks behind it. -/
theorem firstTarget_of_validate {code : Code} {e : LinearError}
    (h : (code.relocated code.liveBefore).validate = .error e) :
    ∃ before i target, FirstTarget code.Trailing code before i target
      ∧ e = .danglingTarget (before.countP Instruction.live) (code.countP Instruction.live) := by
  obtain ⟨front, kept, rest, hsplit, hoffends, hbelow, -⟩ := firstOffence_of_validate h
  rw [length_relocated] at hoffends hbelow
  rw [relocated, List.map_eq_append_iff] at hsplit
  obtain ⟨live₁, live₂, hfilter, hfront, hrest⟩ := hsplit
  obtain ⟨i, live₂, rfl, rfl, -⟩ := List.map_eq_cons_iff.1 hrest
  obtain ⟨before, others, hcode, hbefore, hothers⟩ := List.filter_eq_append_iff.1 hfilter
  obtain ⟨blanks, after, rfl, hblanks, hlive, -⟩ := List.filter_eq_cons_iff.1 hothers
  -- the blanks that stand before the instruction count for nothing
  have hcount : (before ++ blanks).countP Instruction.live = front.length := by
    rw [List.countP_append, List.countP_eq_zero.2 hblanks, List.countP_eq_length_filter, hbefore, ← hfront,
      List.length_map, Nat.add_zero]
  have hfine : ∀ k ∈ before ++ blanks, ∀ t, k.target? = some t → ¬ code.Trailing t := by
    intro k hk t ht htrailing
    rcases List.mem_append.1 hk with hk | hk
    · have hmem : k.mapTarget code.liveBefore ∈ front := by
        rw [← hfront, ← hbefore]
        exact List.mem_map_of_mem (List.mem_filter.2 ⟨hk, Instruction.live_of_target? ht⟩)
      have hlt := hbelow _ hmem _ (by rw [Instruction.target?_mapTarget, ht, Option.map_some])
      exact absurd (trailing_iff.1 htrailing) (Nat.not_le.2 hlt)
    · exact hblanks k hk (Instruction.live_of_target? ht)
  generalize hkept : i.mapTarget code.liveBefore = kept at hoffends
  cases hoffends with
  | blank =>
      have hblank := Instruction.isBlank_mapTarget code.liveBefore i
      simp_all [Instruction.live, Instruction.isBlank]
  | dangling htarget hle =>
      rw [← hkept, Instruction.target?_mapTarget, Option.map_eq_some_iff] at htarget
      obtain ⟨t, ht, rfl⟩ := htarget
      refine ⟨before ++ blanks, i, t, ⟨⟨after, by simp [hcode]⟩, ht, trailing_iff.2 hle, hfine⟩, ?_⟩
      have hall := countP_live code t
      rw [hcount, show code.liveBefore t = code.countP Instruction.live by omega]

/-! ## Exactness -/

theorem exists_live_iff {code : Code} {place : Nat} :
    (∃ i ∈ code.drop place, i.live = true) ↔ ∃ k i, place ≤ k ∧ code[k]? = some i ∧ i.live = true := by
  constructor
  · intro h
    obtain ⟨k, hk, -⟩ := exists_firstLive h
    obtain ⟨i, hi, hlive⟩ := hk.live
    exact ⟨k, i, hk.le, hi, hlive⟩
  · rintro ⟨k, i, hle, hi, hlive⟩
    obtain ⟨n, rfl⟩ := Nat.exists_eq_add_of_le hle
    rw [← List.getElem?_drop] at hi
    exact ⟨i, List.mem_of_getElem? hi, hlive⟩

theorem targets_of_linearize {code linear : Code} (h : code.linearize = .ok linear) :
    ∀ i ∈ code, ∀ t, i.target? = some t → ∃ k ∈ code.drop t, k.live = true := by
  obtain ⟨rfl, -, hbelow⟩ := linearize_eq h
  intro i hi t ht
  have hlt := hbelow _ (mem_relocated.2 ⟨i, hi, Instruction.live_of_target? ht, rfl⟩) (code.liveBefore t)
    (by rw [Instruction.target?_mapTarget, ht, Option.map_some])
  have hnot : ¬ code.Trailing t := by
    rw [trailing_iff, ← length_relocated code.liveBefore, Nat.not_le]
    exact hlt
  simpa [Trailing] using hnot

theorem linear_of_linearize {code linear : Code} (h : code.linearize = .ok linear) :
    List.Forall₂ code.Forwards (code.filter Instruction.live) linear ∧ linear.linearize = .ok linear := by
  have htargets := targets_of_linearize h
  obtain ⟨rfl, -, hbelow⟩ := linearize_eq h
  constructor
  · rw [List.forall₂_map_right_iff, List.forall₂_same]
    intro i hi
    exact forwards_of_live (htargets i (List.mem_of_mem_filter hi))
  · refine linearize_eq_self (fun i hi => ?_) hbelow
    obtain ⟨k, -, hlive, rfl⟩ := mem_relocated.1 hi
    simpa [Instruction.live] using hlive

theorem cases_of_linearize {code : Code} {e : LinearError} (h : code.linearize = .error e) :
    relocateFrom code 0 code = .error e
      ∨ TargetsBelow code.length code ∧ (code.relocated code.liveBefore).validate = .error e := by
  rw [linearize] at h
  cases hrelocate : relocateFrom code 0 code with
  | error e' =>
      rw [hrelocate] at h
      cases h
      exact .inl rfl
  | ok linear =>
      obtain ⟨rfl, hbelow⟩ := relocateFrom_eq hrelocate
      rw [hrelocate] at h
      refine .inr ⟨hbelow, ?_⟩
      rw [relocated]
      cases hvalidate : validate ((code.filter Instruction.live).map (Instruction.mapTarget code.liveBefore)) with
      | error e' =>
          simp only [bind, Except.bind, hvalidate] at h
          cases h
          rfl
      | ok _ =>
          simp only [bind, Except.bind, hvalidate] at h
          cases h

/-- Code has a linear form exactly if every target has an instruction at or after it that is kept. The linear form is
what is kept, in order, with each target forwarded to the first such instruction, and is its own linear form. Otherwise
the error is about a target: the first that is not in the code, or if all are, the first with only blanks behind it. -/
theorem linearize_exact (code : Code) :
    ((∃ linear, code.linearize = .ok linear) ↔
        ∀ i ∈ code, ∀ t, i.target? = some t → ∃ k j, t ≤ k ∧ code[k]? = some j ∧ j.live = true)
      ∧ (∀ linear, code.linearize = .ok linear →
        List.Forall₂ code.Forwards (code.filter Instruction.live) linear ∧ linear.linearize = .ok linear)
      ∧ ∀ e, code.linearize = .error e → ∃ before i target,
        (FirstTarget (code.length ≤ ·) code before i target
            ∧ e = .danglingTarget (before.countP Instruction.live) target)
          ∨ (TargetsBelow code.length code ∧ FirstTarget code.Trailing code before i target
            ∧ e = .danglingTarget (before.countP Instruction.live) (code.countP Instruction.live)) := by
  refine ⟨⟨?_, ?_⟩, fun _ => linear_of_linearize, ?_⟩
  · rintro ⟨linear, h⟩ i hi t ht
    exact exists_live_iff.1 (targets_of_linearize h i hi t ht)
  · intro h
    exact ⟨_, (linearize_of_targets fun i hi t ht => exists_live_iff.2 (h i hi t ht)).1⟩
  · intro e h
    rcases cases_of_linearize h with hrelocate | ⟨hbelow, hvalidate⟩
    · obtain ⟨before, i, target, hfirst, rfl⟩ := firstTarget_of_relocateFrom hrelocate
      exact ⟨before, i, target, .inl ⟨hfirst, by rw [Nat.zero_add]⟩⟩
    · obtain ⟨before, i, target, hfirst, rfl⟩ := firstTarget_of_validate hvalidate
      exact ⟨before, i, target, .inr ⟨hbelow, hfirst, rfl⟩⟩

/-- A jump over blanks, a call back to a blank, and a jump to a blank at the end. -/
theorem linearize_exact_blanks :
    ∃ linear, linearize [.goto 3, .blank, .stop, .blank, .call ⟨"f", 0, some 1⟩] = .ok linear
      ∧ List.Forall₂ (Forwards [.goto 3, .blank, .stop, .blank, .call ⟨"f", 0, some 1⟩])
        [.goto 3, .stop, .call ⟨"f", 0, some 1⟩] linear
      ∧ linear.linearize = .ok linear
      ∧ linearize [.stop, .goto 2, .blank] = .error (.danglingTarget 1 2)
      ∧ ∃ before i target,
        FirstTarget (Trailing [.stop, .goto 2, .blank]) [.stop, .goto 2, .blank] before i target := by
  have hlinear := (linearize_exact [.goto 3, .blank, .stop, .blank, .call ⟨"f", 0, some 1⟩]).2.1 _ rfl
  obtain ⟨before, i, target, ⟨hfirst, herror⟩ | ⟨-, hfirst, -⟩⟩ := (linearize_exact [.stop, .goto 2, .blank]).2.2 _ rfl
  · rw [LinearError.danglingTarget.injEq] at herror
    exact absurd (herror.2 ▸ hfirst.holds) (by decide)
  · exact ⟨_, rfl, hlinear.1, hlinear.2, rfl, before, i, target, hfirst⟩

end Code

end Scriptlet.Ir
