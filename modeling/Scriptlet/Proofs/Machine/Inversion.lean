import Mathlib.Tactic
import Scriptlet.Proofs.Machine.Safety

/-!
# What calls and returns found on the stack

Read backwards, an operation that succeeded tells what it took: where operands were taken, they were on the stack. So a
call that enters a function and a return that leaves one are known down to the last value.
-/

namespace Scriptlet

/-! ## Operands that were taken -/

namespace FrameM

variable {f f' : Frame}

theorem eq_push_of_pop {v : Value} (h : pop f = .ok v f') : f = f'.push v := by
  obtain ⟨stack, slots⟩ := f
  cases stack with
  | nil => cases h
  | cons w rest => cases h; rfl

theorem eq_push_of_takeIndex {invalid : String → RuntimeError} {n : Nat} (h : takeIndex invalid f = .ok n f') :
    ∃ v, f = f'.push v ∧ v.toIndex? = some n := by
  obtain ⟨v, f₁, hpop, h⟩ := Machine.bind_eq_ok h
  cases hv : v.toIndex? with
  | none => rw [hv] at h; cases h
  | some m =>
      rw [hv] at h
      cases h
      exact ⟨v, eq_push_of_pop hpop, hv⟩

theorem eq_push_of_takeAddress {size n : Nat} (h : takeAddress size f = .ok n f') :
    ∃ v, f = f'.push v ∧ v.toIndex? = some n ∧ n < size := by
  obtain ⟨m, f₁, hindex, h⟩ := Machine.bind_eq_ok h
  by_cases hm : m < size
  · rw [if_pos hm] at h
    cases h
    obtain ⟨v, hf, hv⟩ := eq_push_of_takeIndex hindex
    exact ⟨v, hf, hv, hm⟩
  · rw [if_neg hm] at h
    cases h

theorem eq_of_takeDestination {destination : Option Value} (h : takeDestination f = .ok destination f') :
    ∃ flag, f = ⟨flag :: (destination.toList ++ f'.stack), f'.slots⟩ ∧ isNoDestination flag = destination.isNone := by
  obtain ⟨flag, f₁, hflag, h⟩ := Machine.bind_eq_ok h
  cases hno : isNoDestination flag with
  | true =>
      rw [hno] at h
      cases h
      exact ⟨flag, eq_push_of_pop hflag, hno⟩
  | false =>
      rw [hno] at h
      obtain ⟨v, f₂, hv, h⟩ := Machine.bind_eq_ok h
      cases h
      refine ⟨flag, ?_, hno⟩
      rw [eq_push_of_pop hflag, eq_push_of_pop hv]
      rfl

/-- Pairs come out in the order in which they were pushed; on the stack the latest is on top. -/
theorem eq_of_takePairs {count : Nat} {taken args : List (Value × Value)} (h : takePairs count taken f = .ok args f') :
    ∃ pairs, pairs.length = count ∧ args = pairs.reverse ++ taken ∧ f = ⟨pairStack pairs ++ f'.stack, f'.slots⟩ := by
  induction count generalizing taken f with
  | zero => cases h; exact ⟨[], rfl, rfl, rfl⟩
  | succ count ih =>
      obtain ⟨v, f₁, hv, h⟩ := Machine.bind_eq_ok h
      obtain ⟨slot, f₂, hslot, h⟩ := Machine.bind_eq_ok h
      obtain ⟨pairs, hlength, hargs, hf⟩ := ih h
      refine ⟨(slot, v) :: pairs, by rw [List.length_cons, hlength], by simp [hargs], ?_⟩
      rw [eq_push_of_pop hv, eq_push_of_pop hslot, hf]
      rfl

end FrameM

namespace Machine

variable {σ : Type}

/-! ## Calls -/

/-- Whether a pair of a slot and a value is for the slot. -/
def names (slot : Nat) (arg : Value × Value) : Bool :=
  arg.1.toIndex? == some slot

/-- A slot is bound to the value of the last argument that is for it. -/
theorem slots_of_bindArguments {callee callee' : Frame} {args : List (Value × Value)}
    (h : bindArguments callee args = .ok callee') (slot : Nat) :
    callee'.slots[slot]? = ((args.reverse.find? (names slot)).map Prod.snd).or callee.slots[slot]? := by
  induction args generalizing callee with
  | nil => cases h; rfl
  | cons arg args ih =>
      obtain ⟨key, v⟩ := arg
      rw [bindArguments] at h
      cases hkey : key.toIndex? with
      | none => rw [hkey] at h; cases h
      | some n =>
          rw [hkey] at h
          rw [ih h, List.reverse_cons, List.find?_append, Option.map_or, Option.or_assoc, Frame.bind,
            Std.TreeMap.getElem?_insert]
          by_cases hn : n = slot
          · simp [names, hkey, hn]
          · simp [names, hkey, hn]

/-- A call took place. It took `args`, the latest one first, left `caller` of the innermost frame, and went on in a new
frame that holds the address to return to and the arguments. -/
structure Enters (m : Machine σ) (args : List (Value × Value)) (caller : Frame) (m' : Machine σ) : Prop where
  taken : ∃ (argc address flag : Value) (destination : Option Value) (rest : List Value),
    m.frame.stack = argc :: address :: flag :: (destination.toList ++ (FrameM.pairStack args ++ rest))
      ∧ argc.toIndex? = some args.length ∧ address.toIndex? = some m'.ip
      ∧ FrameM.isNoDestination flag = destination.isNone
      ∧ caller = ⟨destination.toList ++ rest, m.frame.slots⟩
  callers : m'.callers = caller :: m.callers
  stack : m'.frame.stack = [.ofIndex (m.ip + 1)]
  slots : ∀ slot : Nat, m'.frame.slots[slot]? = (args.find? (names slot)).map Prod.snd

theorem exists_of_call {m : Machine σ} {f f' : Frame} {action : Action} (h : m.call f = .ok action f') :
    ∃ (argc address flag : Value) (destination : Option Value) (args : List (Value × Value)) (rest : List Value)
      (n : Nat) (callee : Frame),
      f = ⟨argc :: address :: flag :: (destination.toList ++ (FrameM.pairStack args ++ rest)), f'.slots⟩
        ∧ argc.toIndex? = some args.length ∧ address.toIndex? = some n ∧ n < m.ops.size
        ∧ FrameM.isNoDestination flag = destination.isNone ∧ f'.stack = destination.toList ++ rest
        ∧ bindArguments (.ofStack [.ofIndex (m.ip + 1)]) args.reverse = .ok callee ∧ action = .enter n callee := by
  rw [call] at h
  by_cases hdepth : m.limit ≤ m.depth
  · rw [if_pos hdepth] at h
    cases h
  rw [if_neg hdepth] at h
  obtain ⟨count, f₁, hargc, h⟩ := bind_eq_ok h
  obtain ⟨n, f₂, haddress, h⟩ := bind_eq_ok h
  obtain ⟨destination, f₃, hdestination, h⟩ := bind_eq_ok h
  obtain ⟨pushed, f₄, hpushed, h⟩ := bind_eq_ok h
  obtain ⟨callee, f₅, hcallee, h⟩ := bind_eq_ok h
  obtain ⟨_, f₆, hback, h⟩ := bind_eq_ok h
  cases h
  obtain ⟨argc, hf, hcount⟩ := FrameM.eq_push_of_takeIndex hargc
  obtain ⟨address, hf₁, hn, hsize⟩ := FrameM.eq_push_of_takeAddress haddress
  obtain ⟨flag, hf₂, hflag⟩ := FrameM.eq_of_takeDestination hdestination
  obtain ⟨args, rfl, rfl, hf₃⟩ := FrameM.eq_of_takePairs hpushed
  have hbound := eq_ok_of_lift hcallee
  rw [List.append_nil] at hbound
  rw [eq_ok_of_lift hcallee] at hcallee
  cases hcallee
  have hput : FrameM.putBack destination f₄ = .ok () ⟨destination.toList ++ f₄.stack, f₄.slots⟩ :=
    FrameM.putBack_eq destination
  rw [hput] at hback
  cases hback
  refine ⟨argc, address, flag, destination, args, f₄.stack, n, callee, ?_, hcount, hn, hsize, hflag, rfl, hbound, rfl⟩
  rw [hf, hf₁, hf₂, hf₃]
  rfl

theorem enters_of_step [Streams σ] {m m' : Machine σ} (hop : m.ops[m.ip]? = some .call) (h : m.step = .more m') :
    ∃ args caller, m.Enters args caller m' := by
  simp only [step, hop, exec] at h
  split at h
  · rename_i action frame hcall
    obtain ⟨argc, address, flag, destination, args, rest, n, callee, hframe, hargc, haddress, -, hflag, hstack,
      hbound, rfl⟩ := exists_of_call hcall
    cases h
    refine ⟨args, frame, ⟨?_, rfl, stack_bindArguments hbound, fun slot => ?_⟩⟩
    · refine ⟨argc, address, flag, destination, rest, congrArg Frame.stack hframe, hargc, haddress, hflag, ?_⟩
      rw [← hstack, hframe]
    · rw [slots_of_bindArguments hbound, List.reverse_reverse]
      simp [Frame.ofStack]
  · cases h

/-! ## Returns -/

/-- A return took place: it took the value from the top of the innermost stack and the address from below it, dropped
the innermost frame and went on in the caller's, with the value on top. -/
structure Leaves (m : Machine σ) (v : Value) (caller : Frame) (m' : Machine σ) : Prop where
  op : m.ops[m.ip]? = some .ret
  taken : ∃ address rest, m.frame.stack = v :: address :: rest ∧ address.toIndex? = some m'.ip
  callers : m.callers = caller :: m'.callers
  frame : m'.frame = caller.push v

theorem leaves_of_step [Streams σ] {m m' : Machine σ} (hop : m.ops[m.ip]? = some .ret) (h : m.step = .more m') :
    ∃ v caller, m.Leaves v caller m' := by
  simp only [step, hop, exec] at h
  split at h
  · rename_i action frame hret
    obtain ⟨v, f₁, hv, hret⟩ := bind_eq_ok hret
    cases hcallers : m.callers with
    | nil =>
        rw [hcallers] at hret
        cases hret
        cases h
    | cons caller callers =>
        rw [hcallers] at hret
        obtain ⟨address, f₂, haddress, hret⟩ := bind_eq_ok hret
        cases hret
        cases h
        obtain ⟨addressValue, hf₁, hindex⟩ := FrameM.eq_push_of_takeIndex haddress
        refine ⟨v, caller, hop, ⟨addressValue, frame.stack, ?_, hindex⟩, hcallers, rfl⟩
        rw [FrameM.eq_push_of_pop hv, hf₁]
        rfl
  · cases h

end Machine

end Scriptlet
