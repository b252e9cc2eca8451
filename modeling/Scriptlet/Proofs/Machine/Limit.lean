import Mathlib.Tactic
import Scriptlet.Proofs.Machine.Console
import Scriptlet.Proofs.Machine.Faults
import Scriptlet.Proofs.Machine.Isolation

/-!
# The limit on frames

A machine has at least the frame at the root and, beyond that, no more frames than its limit allows. The limit has no
other effect: under a greater limit a run is the same, up to the call for which there was no frame.
-/

namespace Scriptlet.Machine

variable {σ : Type} [Streams σ]

/-! ## Machines that a run comes to -/

/-- The machines that a program comes to under any number of runs, during them and after them. -/
inductive Reached (start : Machine σ) : Machine σ → Prop
  | start : Reached start start
  | advance {m : Machine σ} : Reached start m → Reached start m.advance
  | run {m m' : Machine σ} {fuel : Nat} {outcome : Outcome} : Reached start m → run fuel m = some (m', outcome) →
      Reached start m'

theorem after_add (m : Machine σ) (k n : Nat) : m.after (k + n) = (m.after k).after n := by
  induction n with
  | zero => rfl
  | succ n ih => rw [← Nat.add_assoc, after, ih, after]

theorem Reached.exists_after {start m : Machine σ} (h : start.Reached m) : ∃ n, start.after n = m := by
  induction h with
  | start => exact ⟨0, rfl⟩
  | advance _ ih =>
      obtain ⟨n, rfl⟩ := ih
      exact ⟨n + 1, rfl⟩
  | run _ hrun ih =>
      obtain ⟨n, rfl⟩ := ih
      exact ⟨n + _, by rw [after_add, after_of_run hrun]⟩

theorem reached_after (m : Machine σ) (n : Nat) : m.Reached (m.after n) := by
  induction n with
  | zero => exact .start
  | succ n ih => exact ih.advance

theorem run_of_stopped {m : Machine σ} (h : m.status ≠ .running) (fuel : Nat) : run (fuel + 1) m = some (m, .ok none) := by
  rw [run, if_neg h]

/-- The run of a machine ends with the first step after which it cannot go on. -/
theorem exists_last_step {fuel : Nat} {m m' : Machine σ} {outcome : Outcome} (hrunning : m.status = .running)
    (h : run fuel m = some (m', outcome)) :
    ∃ n, (∀ j ≤ n, (m.after j).status = .running) ∧ (∀ j < n, (m.after j).step = .more (m.after (j + 1)))
      ∧ (m.after n).step = .done m' outcome := by
  induction fuel generalizing m with
  | zero => cases h
  | succ fuel ih =>
      rw [run, if_pos hrunning] at h
      cases hstep : m.step with
      | more m₁ =>
          rw [hstep] at h
          obtain ⟨n, hstatus, hmore, hlast⟩ := ih ((kept_of_step hstep).2.2.trans hrunning) h
          have hnext : ∀ j, m.after (j + 1) = m₁.after j := fun j => by
            rw [after_succ, advance_of_more hrunning hstep]
          refine ⟨n + 1, ?_, ?_, by rw [hnext, hlast]⟩
          · rintro (_ | j) hj
            · exact hrunning
            · rw [hnext]
              exact hstatus j (Nat.le_of_succ_le_succ hj)
          · rintro (_ | j) hj
            · rw [hnext]
              exact hstep
            · rw [hnext, hnext]
              exact hmore j (Nat.lt_of_succ_lt_succ hj)
      | done m₁ outcome₁ =>
          rw [hstep] at h
          cases h
          refine ⟨0, ?_, by simp, hstep⟩
          intro j hj
          rw [Nat.le_zero.1 hj]
          exact hrunning

theorem kept_advance (m : Machine σ) : m.advance.ops = m.ops ∧ m.advance.limit = m.limit := by
  by_cases hrunning : m.status = .running
  · cases hstep : m.step with
    | more m' =>
        rw [advance_of_more hrunning hstep]
        exact ⟨(kept_of_step hstep).1, (kept_of_step hstep).2.1⟩
    | done m' outcome =>
        rw [advance_of_done hrunning hstep]
        obtain ⟨frame, console, status, -, rfl⟩ := exists_of_step_done hstep
        exact ⟨rfl, rfl⟩
  · rw [advance_of_stopped hrunning]
    exact ⟨rfl, rfl⟩

theorem kept_after (m : Machine σ) (n : Nat) : (m.after n).ops = m.ops ∧ (m.after n).limit = m.limit := by
  induction n with
  | zero => exact ⟨rfl, rfl⟩
  | succ n ih => exact ⟨(kept_advance _).1.trans ih.1, (kept_advance _).2.trans ih.2⟩

/-! ## The number of frames -/

/-- All frames, the one at the root first. -/
def frames (m : Machine σ) : List Frame :=
  m.callers.reverse ++ [m.frame]

omit [Streams σ] in
@[simp]
theorem length_frames (m : Machine σ) : m.frames.length = m.depth := by
  simp [frames, depth]

omit [Streams σ] in
theorem getLast?_frames (m : Machine σ) : m.frames[m.frames.length - 1]? = some m.frame := by
  rw [← List.getLast?_eq_getElem?, frames, List.getLast?_concat]

/-- What a step does to the number of frames. A call adds one if there are fewer than the limit allows, and a return
drops one if there are others. -/
inductive DepthStep (m m' : Machine σ) : Prop
  | call : m.ops[m.ip]? = some .call → m.depth < m.limit → m'.depth = m.depth + 1 → DepthStep m m'
  | ret : m.ops[m.ip]? = some .ret → 1 < m.depth → m'.depth + 1 = m.depth → DepthStep m m'
  | same : m'.depth = m.depth → DepthStep m m'

theorem depth_lt_of_call {m m' : Machine σ} (hop : m.ops[m.ip]? = some .call) (h : m.step = .more m') :
    m.depth < m.limit := by
  refine Nat.lt_of_not_le fun hdepth => ?_
  rw [step_of_overflows ⟨hop, hdepth⟩] at h
  cases h

theorem depthStep_advance (m : Machine σ) : m.DepthStep m.advance := by
  by_cases hrunning : m.status = .running
  · cases hstep : m.step with
    | done m' outcome =>
        rw [advance_of_done hrunning hstep]
        exact .same (by rw [depth, depth, callers_of_step_done hstep])
    | more m' =>
        rw [advance_of_more hrunning hstep]
        rcases callers_of_step hstep with ⟨hop, -, f, hcallers⟩ | ⟨hop, f, hcallers⟩ | ⟨-, -, hcallers⟩
        · exact .call hop (depth_lt_of_call hop hstep) (by simp [depth, hcallers])
        · exact .ret hop (by simp [depth, hcallers]) (by simp [depth, hcallers])
        · exact .same (by rw [depth, depth, hcallers])
  · rw [advance_of_stopped hrunning]
    exact .same rfl

theorem depth_after_le {m : Machine σ} (h : m.depth ≤ max 1 m.limit) (n : Nat) : (m.after n).depth ≤ max 1 m.limit := by
  induction n with
  | zero => exact h
  | succ n ih =>
      have hlimit := (kept_after m n).2
      cases depthStep_advance (m.after n) with
      | call hop hdepth hnext => rw [after]; omega
      | ret hop hdepth hnext => rw [after]; omega
      | same hnext => rw [after]; omega

theorem step_ne_more_of_root {m m' : Machine σ} (hop : m.ops[m.ip]? = some .ret) (hroot : m.depth = 1) :
    m.step ≠ .more m' := by
  intro hstep
  obtain ⟨v, caller, hleaves⟩ := leaves_of_step hop hstep
  rw [depth, hleaves.callers] at hroot
  simp at hroot

/-- Every machine that a program comes to has the frame at the root and no more frames than the limit allows. The number
of frames changes by calls and returns only, and a return at the root ends the run. An operation is looked up at its
place in the program. A call fails for lack of frames only if there are as many as the limit allows, and then nothing but
the status changes. A machine that has stopped stays as it is. -/
theorem reached_within_limit {ops : List Op} {limit : Nat} {console : σ} {m : Machine σ}
    (h : (ofOps ops limit console).Reached m) :
    (1 ≤ m.frames.length ∧ m.frames.length ≤ max 1 limit ∧ m.frames[m.frames.length - 1]? = some m.frame)
      ∧ m.DepthStep m.advance
      ∧ (m.frames.length = 1 → m.ops[m.ip]? = some .ret → ∀ m', m.step ≠ .more m')
      ∧ (∀ op, m.ops[m.ip]? = some op → ops[m.ip]? = some op ∧ m.ip < ops.length)
      ∧ (∀ m' n, m.step = .done m' (.error (.stackOverflow n)) →
        m.ops[m.ip]? = some .call ∧ limit ≤ m.frames.length ∧ n = limit ∧ m' = { m with status := .faulted })
      ∧ (m.status ≠ .running → ∀ fuel, run (fuel + 1) m = some (m, .ok none)) := by
  obtain ⟨n, rfl⟩ := h.exists_after
  obtain ⟨hops, hlimit⟩ := kept_after (ofOps ops limit console) n
  -- only the number of frames depends on how the machine was reached
  have hdepth := depth_after_le (m := ofOps ops limit console) (le_max_left 1 limit) n
  generalize (ofOps ops limit console).after n = m at hops hlimit hdepth
  rw [length_frames]
  refine ⟨⟨Nat.le_add_left 1 _, hdepth, ?_⟩, depthStep_advance m, ?_, ?_, ?_, run_of_stopped⟩
  · rw [← length_frames, getLast?_frames]
  · exact fun hroot hop _ => step_ne_more_of_root hop hroot
  · intro op hop
    rw [hops] at hop
    have hget : ops[m.ip]? = some op := by simpa [ofOps] using hop
    exact ⟨hget, (List.getElem?_eq_some_iff.1 hget).1⟩
  · intro m' k hstep
    have hover := overflows_of_step hstep rfl
    rw [step_of_overflows hover] at hstep
    cases hstep
    exact ⟨hover.1, hlimit.ge.trans hover.2, hlimit, rfl⟩

/-- A function that calls itself and nothing else. -/
def endlessCalls : List Op :=
  [.push (.ofIndex 0), .push (.ofIndex 0), .push (.ofIndex 0), .call]

/-- Under a limit of two frames, the second call fails. -/
theorem reached_within_limit_recursion :
    ∃ m m', (ofOps endlessCalls 2 (Console.new [] none none)).Reached m ∧ (ofOps endlessCalls 2 (Console.new [] none none)).Reached m'
      ∧ m.frames.length = 2 ∧ m.step = .done m' (.error (.stackOverflow 2)) ∧ m' = { m with status := .faulted }
      ∧ ∀ fuel, run (fuel + 1) m' = some (m', .ok none) := by
  generalize hstart : ofOps endlessCalls 2 (Console.new [] none none) = start
  have hop : (start.after 7).ops[(start.after 7).ip]? = some .call := by
    rw [← hstart]
    decide +kernel
  have hlength : (start.after 7).frames.length = 2 ∧ (start.after 7).limit = 2 ∧ (start.after 7).status = .running := by
    rw [← hstart]
    decide +kernel
  have hreached : start.Reached (start.after 7) := reached_after start 7
  have hstep := step_of_overflows ⟨hop, by rw [← length_frames, hlength.1, hlength.2.1]⟩
  rw [hlength.2.1] at hstep
  have hnext := hreached.advance
  rw [advance_of_done hlength.2.2 hstep] at hnext
  subst hstart
  obtain ⟨-, -, -, -, hoverflow, -⟩ := reached_within_limit hreached
  obtain ⟨-, -, -, -, -, hstopped⟩ := reached_within_limit hnext
  exact ⟨_, _, hreached, hnext, hlength.1, hstep, (hoverflow _ _ hstep).2.2.2, hstopped (by simp)⟩

/-! ## Greater limits -/

/-- A machine with another limit. -/
def withLimit (m : Machine σ) (limit : Nat) : Machine σ :=
  { m with limit }

/-- A step of machines with another limit. -/
def Step.withLimit (limit : Nat) : Step σ → Step σ
  | .more m => .more (m.withLimit limit)
  | .done m outcome => .done (m.withLimit limit) outcome

variable {m m' : Machine σ} {limit : Nat}

omit [Streams σ] in
theorem exec_withLimit {op : Op} (hle : m.limit ≤ limit) (h : op = .call → m.depth < m.limit) :
    (m.withLimit limit).exec op = m.exec op := by
  cases op with
  | call =>
      have hdepth : ¬ m.limit ≤ m.depth := Nat.not_le.2 (h rfl)
      have hdepth' : ¬ (m.withLimit limit).limit ≤ (m.withLimit limit).depth :=
        Nat.not_le.2 (Nat.lt_of_lt_of_le (h rfl) hle)
      rw [exec, exec, call, call, if_neg hdepth, if_neg hdepth']
      rfl
  | _ => rfl

theorem perform_withLimit (frame : Frame) (action : Action) :
    (m.withLimit limit).perform frame action = (m.perform frame action).withLimit limit := by
  cases action with
  | invoke b args destination =>
      simp only [perform, withLimit]
      split <;> rfl
  | _ => rfl

theorem step_withLimit (hle : m.limit ≤ limit) (hfits : ¬ m.Overflows) :
    (m.withLimit limit).step = m.step.withLimit limit := by
  have hops : (m.withLimit limit).ops[(m.withLimit limit).ip]? = m.ops[m.ip]? := rfl
  simp only [step, hops]
  cases hop : m.ops[m.ip]? with
  | none => rfl
  | some op =>
      have hexec : (m.withLimit limit).exec op = m.exec op := by
        refine exec_withLimit hle ?_
        rintro rfl
        exact Nat.lt_of_not_le fun hdepth => hfits ⟨hop, hdepth⟩
      have hframe : (m.withLimit limit).frame = m.frame := rfl
      simp only [hexec, hframe]
      cases m.exec op m.frame with
      | ok action frame => exact perform_withLimit frame action
      | error e frame => rfl

theorem not_overflows_of_more (h : m.step = .more m') : ¬ m.Overflows := by
  intro hover
  rw [step_of_overflows hover] at h
  cases h

theorem run_withLimit {fuel : Nat} {outcome : Outcome} (hle : m.limit ≤ limit) (h : run fuel m = some (m', outcome))
    (hfits : ∀ n, outcome ≠ .error (.stackOverflow n)) :
    run fuel (m.withLimit limit) = some (m'.withLimit limit, outcome) := by
  induction fuel generalizing m with
  | zero => cases h
  | succ fuel ih =>
      have hstatus : (m.withLimit limit).status = m.status := rfl
      rw [run] at h ⊢
      rw [hstatus]
      by_cases hrunning : m.status = .running
      · rw [if_pos hrunning] at h ⊢
        cases hstep : m.step with
        | more m₁ =>
            rw [hstep] at h
            rw [step_withLimit hle (not_overflows_of_more hstep), hstep]
            exact ih ((kept_of_step hstep).2.1 ▸ hle) h
        | done m₁ outcome₁ =>
            rw [hstep] at h
            cases h
            have hnot : ¬ m.Overflows := by
              intro hover
              rw [step_of_overflows hover] at hstep
              cases hstep
              exact hfits m.limit rfl
            rw [step_withLimit hle hnot, hstep]
            rfl
      · rw [if_neg hrunning] at h ⊢
        cases h
        rfl

/-- As long as no call lacks a frame, machines under both limits are in step. -/
theorem after_withLimit (hle : m.limit ≤ limit) {n : Nat} (h : ∀ j < n, ¬ (m.after j).Overflows) :
    (m.withLimit limit).after n = (m.after n).withLimit limit := by
  induction n with
  | zero => rfl
  | succ n ih =>
      have hle' : (m.after n).limit ≤ limit := (kept_after m n).2.symm ▸ hle
      have hstep := step_withLimit hle' (h n (Nat.lt_succ_self n))
      have hstatus : ((m.after n).withLimit limit).status = (m.after n).status := rfl
      rw [after, after, ih fun j hj => h j (Nat.lt_succ_of_lt hj), advance, advance, hstep, hstatus]
      split
      · cases (m.after n).step <;> rfl
      · rfl

/-! ## Output -/

section Output

variable {written : σ → List UInt8}

theorem output_perform (hgrows : Streams.Grows written) (m : Machine σ) (frame : Frame) (action : Action) :
    match m.perform frame action with
    | .more m' => written m.console <+: written m'.console
    | .done m' _ => written m.console <+: written m'.console := by
  cases action with
  | invoke b args destination =>
      have hkept := b.keeps_run (hgrows (written m.console)) args m.console List.prefix_rfl
      simp only [perform]
      cases hrun : b.run args m.console <;> rw [hrun] at hkept <;> exact hkept
  | _ => exact List.prefix_rfl

theorem output_advance (hgrows : Streams.Grows written) (m : Machine σ) :
    written m.console <+: written m.advance.console := by
  by_cases hrunning : m.status = .running
  · rw [advance, if_pos hrunning, step]
    cases m.ops[m.ip]? with
    | none => exact List.prefix_rfl
    | some op =>
        dsimp only
        cases m.exec op m.frame with
        | error e frame => exact List.prefix_rfl
        | ok action frame =>
            have hkept := output_perform hgrows m frame action
            dsimp only
            cases hperform : m.perform frame action <;> rw [hperform] at hkept <;> exact hkept
  · rw [advance_of_stopped hrunning]

theorem output_after (hgrows : Streams.Grows written) (m : Machine σ) {n j : Nat} (h : n ≤ j) :
    written (m.after n).console <+: written (m.after j).console := by
  induction h with
  | refl => exact List.prefix_rfl
  | step _ ih => exact ih.trans (output_advance hgrows _)

end Output

/-- A limit on frames has no effect but to end runs. A run that ends otherwise ends in the same way under every greater
limit. A run that ends because a call lacks a frame is up to this call the same under every greater limit, step by step;
so what it has written is the beginning of what is written there. -/
theorem run_under_greater_limit (ops : List Op) (console : σ) {limit greater : Nat} (hle : limit ≤ greater)
    {fuel : Nat} {final : Machine σ} {outcome : Outcome}
    (hrun : run fuel (ofOps ops limit console) = some (final, outcome)) :
    ((∀ k, outcome ≠ .error (.stackOverflow k)) →
        run fuel (ofOps ops greater console) = some (final.withLimit greater, outcome))
      ∧ ∀ k, outcome = .error (.stackOverflow k) → ∃ n,
        ((ofOps ops limit console).after n).step = .done final outcome
          ∧ (∀ j ≤ n, ((ofOps ops limit console).after j).status = .running
            ∧ (ofOps ops greater console).after j = ((ofOps ops limit console).after j).withLimit greater)
          ∧ ∀ written, Streams.Grows written →
            (∀ j ≥ n, written final.console <+: written ((ofOps ops greater console).after j).console)
              ∧ ∀ fuel' final' outcome', run fuel' (ofOps ops greater console) = some (final', outcome') →
                written final.console <+: written final'.console := by
  refine ⟨run_withLimit hle hrun, ?_⟩
  rintro k rfl
  obtain ⟨n, hstatus, hmore, hlast⟩ := exists_last_step rfl hrun
  have hsame : ∀ j ≤ n, (ofOps ops greater console).after j = ((ofOps ops limit console).after j).withLimit greater :=
    fun j hj => after_withLimit (m := ofOps ops limit console) hle fun i hi =>
      not_overflows_of_more (hmore i (hi.trans_le hj))
  have hconsole : final.console = ((ofOps ops greater console).after n).console := by
    have hover := step_of_overflows (overflows_of_step hlast rfl)
    rw [hlast] at hover
    cases hover
    rw [hsame n le_rfl]
    rfl
  refine ⟨n, hlast, fun j hj => ⟨hstatus j hj, hsame j hj⟩, fun written hgrows => ?_⟩
  have houtput : ∀ j ≥ n, written final.console <+: written ((ofOps ops greater console).after j).console := by
    intro j hj
    rw [hconsole]
    exact output_after hgrows _ hj
  refine ⟨houtput, ?_⟩
  intro fuel' final' outcome' hrun'
  -- with `n` more steps to spare, the run has passed the call that lacked a frame
  rw [← after_of_run (run_add hrun' n)]
  exact houtput _ (Nat.le_add_left n fuel')

/-- A function that prints and then calls another one, which returns. -/
def nestedCalls : List Op :=
  [.push (.ofIndex 0), .push (.ofIndex 5), .push (.ofIndex 0), .call, .halt,
    .push .nil, .push (.string "a"), .push (.ofIndex 0), .push (.string "print"), .push (.ofIndex 1), .callBuiltin, .pop,
    .push (.ofIndex 0), .push (.ofIndex 17), .push (.ofIndex 0), .call, .ret, .push .nil, .ret]

/-- Three frames are enough for two calls, and two are too few for the second one. What was printed before it stays. -/
theorem run_under_greater_limit_nested :
    ∃ start : Nat → Machine Console, (∀ limit, start limit = ofOps nestedCalls limit (Console.new [] none none))
      ∧ (∃ final, run 19 (start 3) = some (final, .ok none)
        ∧ run 19 (start 1000) = some (final.withLimit 1000, .ok none))
      ∧ ∃ final n, run 15 (start 2) = some (final, .error (.stackOverflow 2))
        ∧ final.console.output = Text.utf8 "a\n"
        ∧ ((start 2).after n).step = .done final (.error (.stackOverflow 2))
        ∧ (∀ j ≤ n, (start 3).after j = ((start 2).after j).withLimit 3)
        ∧ ∀ j ≥ n, Text.utf8 "a\n" <+: ((start 3).after j).console.output := by
  refine ⟨fun limit => ofOps nestedCalls limit (Console.new [] none none), fun _ => rfl, ?_, ?_⟩
  · have hends : (run 19 (ofOps nestedCalls 3 (Console.new [] none none))).any
        (fun r => r.2 = .ok none) = true := by
      decide +kernel
    obtain ⟨⟨final, outcome⟩, hrun, houtcome⟩ := (Option.any_eq_true _ _).1 hends
    obtain rfl : outcome = .ok none := by simpa using houtcome
    refine ⟨final, hrun, ?_⟩
    exact (run_under_greater_limit _ _ (by decide) hrun).1 (by simp)
  · have hends : (run 15 (ofOps nestedCalls 2 (Console.new [] none none))).any
        (fun r => r.2 = .error (.stackOverflow 2) && r.1.console.output = Text.utf8 "a\n") = true := by
      decide +kernel
    obtain ⟨⟨final, outcome⟩, hrun, hresult⟩ := (Option.any_eq_true _ _).1 hends
    obtain ⟨rfl, houtput⟩ : outcome = .error (.stackOverflow 2) ∧ final.console.output = Text.utf8 "a\n" := by
      simpa using hresult
    obtain ⟨n, hlast, hsame, hgrows⟩ := (run_under_greater_limit _ _ (show 2 ≤ 3 by decide) hrun).2 2 rfl
    obtain ⟨hstays, -⟩ := hgrows _ Console.grows_output
    rw [houtput] at hstays
    exact ⟨final, n, hrun, houtput, hlast, fun j hj => (hsame j hj).2, hstays⟩

end Scriptlet.Machine
