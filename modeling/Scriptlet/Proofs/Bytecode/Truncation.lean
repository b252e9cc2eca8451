import Mathlib.Tactic
import Scriptlet.Proofs.Bytecode.ImageLaws

/-!
# Images that are cut off

An image that ends between two operations is the image of those before. An image that ends within an operation is
reported as truncated at the offset of this operation, wherever in it the cut falls: the length of an argument is
compared with the bytes that are there before any of them is looked at.
-/

namespace Scriptlet.Image

/-! ## Within an operation -/

theorem payload_take {text : String} (h : (Text.utf8 text).length ≤ maxPayload) {k : Nat}
    (hk : k < (Text.utf8 text).length + 2) :
    payload ((lengthBytes (Text.utf8 text).length ++ Text.utf8 text).take k) = .error .truncated := by
  match k with
  | 0 => rfl
  | 1 => rfl
  | k + 2 =>
      have hshort : (((Text.utf8 text).take k).take (Text.utf8 text).length).length < (Text.utf8 text).length := by
        simp only [List.length_take]
        omega
      simp only [lengthBytes, List.cons_append, List.nil_append, List.take_succ_cons, payload, toNat_lengthBytes h,
        hshort, if_true]

theorem decodeOp_of_payload {op : Op} {text : String} (hp : op.payload? = some text) {rest : List UInt8} {fault : Fault}
    (h : payload rest = .error fault) : decodeOp op.opcode rest = .error fault := by
  cases op with
  | pushSlot slot => simp [decodeOp, Op.opcode, h, bind, Except.bind]
  | push v => simp [decodeOp, Op.opcode, h, bind, Except.bind]
  | _ => cases hp

theorem decodeFrom_take_opBytes {op : Op} (hop : Fits op) {k : Nat} (hpos : 0 < k) (hk : k < (opBytes op).length)
    (offset : Nat) : decodeFrom 0 offset ((opBytes op).take k) = .error ⟨offset, .truncated⟩ := by
  obtain ⟨k, rfl⟩ : ∃ j, k = j + 1 := ⟨k - 1, by omega⟩
  have hsize := payloadSize_le_iff.2 hop
  cases hp : op.payload? with
  | none =>
      simp only [opBytes, hp, List.length_singleton] at hk
      omega
  | some text =>
      simp only [payloadSize, hp] at hsize
      simp only [opBytes, hp, lengthBytes, List.length_cons, List.cons_append, List.nil_append] at hk
      have hread := decodeOp_of_payload hp (payload_take hsize (show k < _ by omega))
      simp only [opBytes, hp, List.cons_append, List.take_succ_cons, decodeFrom, hread]

/-! ## Between operations -/

theorem encodeFrom_eq_ok_iff {index : Nat} {ops : List Op} {bytes : List UInt8} :
    encodeFrom index ops = .ok bytes ↔ (∀ op ∈ ops, Fits op) ∧ bytes = ops.flatMap opBytes := by
  induction ops generalizing index bytes with
  | nil => simp [encodeFrom, eq_comm]
  | cons op ops ih =>
      rw [encodeFrom, List.forall_mem_cons, ← payloadSize_le_iff, List.flatMap_cons]
      split
      · rename_i hlarge
        simp [Nat.not_le.2 hlarge]
      · rename_i hsmall
        cases htail : encodeFrom (index + 1) ops with
        | error e =>
            have hnot : ¬ ∀ op ∈ ops, Fits op := by
              intro hops
              rw [ih.2 ⟨hops, rfl⟩] at htail
              cases htail
            simp [bind, Except.bind, hnot]
        | ok tail =>
            obtain ⟨hops, rfl⟩ := ih.1 htail
            simp only [bind, Except.bind, pure, Except.pure, Except.ok.injEq, Nat.not_lt.1 hsmall, true_and]
            exact ⟨fun h => ⟨hops, h.symm⟩, fun h => h.2.symm⟩

/-- The image of the first `i` operations has `n` bytes. -/
def Boundary (ops : List Op) (i n : Nat) : Prop :=
  i ≤ ops.length ∧ ∃ image, encode (ops.take i) = .ok image ∧ image.length = n

theorem boundary_append {before after : List Op} (h : ∀ op ∈ before, Fits op) :
    Boundary (before ++ after) before.length (before.flatMap opBytes).length := by
  refine ⟨by simp, _, ?_, rfl⟩
  rw [List.take_left]
  exact encodeFrom_eq_ok_iff.2 ⟨h, rfl⟩

/-- A number of bytes ends between two operations or within one. -/
theorem exists_cut {ops : List Op} {n : Nat} (hn : n ≤ (ops.flatMap opBytes).length) :
    (∃ before after, ops = before ++ after ∧ n = (before.flatMap opBytes).length)
      ∨ ∃ before op after k, ops = before ++ op :: after ∧ n = (before.flatMap opBytes).length + k ∧ 0 < k
        ∧ k < (opBytes op).length := by
  induction ops generalizing n with
  | nil => exact .inl ⟨[], [], rfl, by simpa using hn⟩
  | cons op ops ih =>
      rw [List.flatMap_cons, List.length_append] at hn
      by_cases hwithin : n < (opBytes op).length
      · by_cases hzero : n = 0
        · exact .inl ⟨[], op :: ops, rfl, by simpa using hzero⟩
        · exact .inr ⟨[], op, ops, n, rfl, by simp, Nat.pos_of_ne_zero hzero, hwithin⟩
      · rcases ih (n := n - (opBytes op).length) (by omega) with
          ⟨before, after, rfl, hlength⟩ | ⟨before, cut, after, k, rfl, hlength, hk⟩
        · exact .inl ⟨op :: before, after, rfl, by simp only [List.flatMap_cons, List.length_append]; omega⟩
        · refine .inr ⟨op :: before, cut, after, k, rfl, ?_, hk⟩
          simp only [List.flatMap_cons, List.length_append]
          omega

/-- What is read of an image that is cut off: the operations before the cut if it falls between two of them, and else
an error at the operation within which it falls, which is that the bytes end too early. -/
theorem decode_truncated {ops : List Op} (hslots : ∀ op ∈ ops, Storable op) {bytes : List UInt8}
    (h : encode ops = .ok bytes) {n : Nat} (hn : n ≤ bytes.length) :
    ∃ decoded, decode bytes = .ok decoded
      ∧ (∀ i, Boundary ops i n → decode (bytes.take n) = .ok (decoded.take i) ∧ (decoded.take i).length = i)
      ∧ ((∀ i, ¬ Boundary ops i n) → ∃ i start stop, Boundary ops i start ∧ Boundary ops (i + 1) stop
        ∧ start < n ∧ n < stop ∧ decode (bytes.take n) = .error ⟨start, .truncated⟩) := by
  obtain ⟨hfits, rfl⟩ := encodeFrom_eq_ok_iff.1 h
  refine ⟨ops.map Op.reread, decode_encode hslots h, ?_, ?_⟩
  · rintro i ⟨hi, image, himage, rfl⟩
    have hhead : (ops.flatMap opBytes).take image.length = image := by
      obtain ⟨-, rfl⟩ := encodeFrom_eq_ok_iff.1 himage
      have hsplit : ops.flatMap opBytes = (ops.take i).flatMap opBytes ++ (ops.drop i).flatMap opBytes := by
        rw [← List.flatMap_append, List.take_append_drop]
      rw [hsplit, List.take_left]
    rw [hhead, decode_encode (fun op hop => hslots op (List.mem_of_mem_take hop)) himage, List.map_take]
    simp [hi]
  · intro hnone
    rcases exists_cut hn with ⟨before, after, rfl, rfl⟩ | ⟨before, op, after, k, rfl, rfl, hpos, hk⟩
    · exact absurd (boundary_append fun op hop => hfits op (List.mem_append_left _ hop)) (hnone before.length)
    · have hbefore : ∀ o ∈ before, Fits o := fun o ho => hfits o (List.mem_append_left _ ho)
      have hop : Fits op := hfits op (by simp)
      have hstop := @boundary_append (before ++ [op]) after (by simpa [or_imp, forall_and] using ⟨hbefore, hop⟩)
      simp only [List.append_assoc, List.singleton_append, List.length_append, List.length_singleton,
        List.flatMap_append, List.flatMap_singleton] at hstop
      have hcut : ((before ++ op :: after).flatMap opBytes).take ((before.flatMap opBytes).length + k)
          = before.flatMap opBytes ++ (opBytes op).take k := by
        rw [List.flatMap_append, List.take_length_add_append, List.flatMap_cons,
          List.take_append_of_le_length hk.le]
      have hread := decodeFrom_encodeFrom (fun o ho => hslots o (List.mem_append_left _ ho))
        (encodeFrom_eq_ok_iff.2 ⟨hbefore, rfl⟩ : encodeFrom 0 before = .ok _) 0 ((opBytes op).take k)
      rw [decodeFrom_take_opBytes hop hpos hk, Nat.zero_add] at hread
      exact ⟨before.length, _, _, boundary_append hbefore, hstop, by omega, by omega, by rw [hcut]; exact hread⟩

/-- A cut between two operations, and one in the middle of a character of two bytes. -/
theorem decode_truncated_character :
    (∀ op ∈ [.pushSlot 12, .push (.string "é"), .halt], Storable op)
      ∧ encode [.pushSlot 12, .push (.string "é"), .halt] = .ok [16, 0, 2, 49, 50, 17, 0, 2, 195, 169, 25]
      ∧ decode [16, 0, 2, 49, 50] = .ok [.pushSlot 12]
      ∧ decode [16, 0, 2, 49, 50, 17, 0, 2, 195] = .error ⟨5, .truncated⟩ := by
  have hslots : ∀ op ∈ [.pushSlot 12, .push (.string "é"), .halt], Storable op := by simp [Storable]
  have hbytes : encode [.pushSlot 12, .push (.string "é"), .halt]
      = .ok [16, 0, 2, 49, 50, 17, 0, 2, 195, 169, 25] := rfl
  have hboundary : ∀ i n, Boundary [.pushSlot 12, .push (.string "é"), .halt] i n →
      i = 0 ∧ n = 0 ∨ i = 1 ∧ n = 5 ∨ i = 2 ∧ n = 10 ∨ i = 3 ∧ n = 11 := by
    rintro i n ⟨hi, image, himage, rfl⟩
    simp only [List.length_cons, List.length_nil] at hi
    interval_cases i <;> cases himage <;> decide
  obtain ⟨decoded, hdecoded, hbetween, -⟩ := @decode_truncated _ hslots _ hbytes 5 (by decide)
  obtain ⟨-, -, -, hwithin⟩ := @decode_truncated _ hslots _ hbytes 9 (by decide)
  cases (decode_encode hslots hbytes).symm.trans hdecoded
  obtain ⟨i, start, stop, hstart, hstop, hlow, hhigh, herror⟩ := hwithin fun i h => by
    have := hboundary i 9 h
    omega
  obtain rfl : start = 5 := by
    have hi := hboundary i start hstart
    have hnext := hboundary (i + 1) stop hstop
    omega
  exact ⟨hslots, hbytes, (hbetween 1 ⟨by decide, _, rfl, rfl⟩).1, herror⟩

end Scriptlet.Image
