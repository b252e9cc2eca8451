import Mathlib.Tactic
import Scriptlet.Proofs.Bytecode.Image
import Scriptlet.Proofs.Number.Length

/-!
# Laws of images

Which operations have an image, what is read when an image stands in front of other bytes, and what becomes of an image
that is read and written again.
-/

namespace Scriptlet

/-! ## Literals that are kept -/

theorem Number.finite_of_parseFinite? {text : String} {x : Number} (h : parseFinite? text = some x) : x.finite = true :=
  (Option.filter_eq_some_iff.1 h).2

namespace Value

/-- Literals whose text denotes themselves. Other strings look like something else. -/
def Plain : Value → Prop
  | number x => x.finite = true
  | string s => s ≠ "nil" ∧ s ≠ "true" ∧ s ≠ "false" ∧ Number.parseFinite? s = none
  | boolean _ => True
  | nil => True

theorem plain_ofLiteral (text : String) : (ofLiteral text).Plain := by
  rw [ofLiteral]
  split
  · trivial
  · split
    · trivial
    · split
      · trivial
      · rename_i hnil htrue hfalse
        split
        · rename_i x hx
          exact Number.finite_of_parseFinite? hx
        · exact ⟨hnil, htrue, hfalse, ‹_›⟩

theorem reread_of_plain {v : Value} (h : v.Plain) : v.reread = v := by
  cases v with
  | number x => exact reread_number h
  | string s =>
      obtain ⟨hnil, htrue, hfalse, hparse⟩ := h
      simp [reread, text, ofLiteral, hnil, htrue, hfalse, hparse]
  | boolean b => exact reread_boolean b
  | nil => exact reread_nil

/-- Only numbers have other texts than those they are read from. -/
theorem text_ofLiteral (text : String) :
    (ofLiteral text).text = text ∨ ∃ x : Number, x.finite = true ∧ ofLiteral text = number x := by
  rw [ofLiteral]
  split
  · exact .inl (Eq.symm ‹_›)
  · split
    · exact .inl (Eq.symm ‹_›)
    · split
      · exact .inl (Eq.symm ‹_›)
      · split
        · rename_i x hx
          exact .inr ⟨x, Number.finite_of_parseFinite? hx, rfl⟩
        · exact .inl rfl

end Value

theorem Op.reread_of_plain {op : Op} (h : ∀ v, .push v = op → v.Plain) : op.reread = op := by
  cases op with
  | push v => rw [Op.reread, Op.mapLiteral, Value.reread_of_plain (h v rfl)]
  | _ => rfl

theorem map_reread_eq_self {ops : List Op} (h : ∀ op ∈ ops, op.reread = op) : ops.map Op.reread = ops := by
  rw [List.map_congr_left h, List.map_id']

theorem map_reread_eq_self_iff {ops : List Op} : ops.map Op.reread = ops ↔ ∀ v, .push v ∈ ops → v.Plain := by
  constructor
  · intro h v hv
    rw [← h] at hv
    obtain ⟨op, -, hop⟩ := List.mem_map.1 hv
    cases op with
    | push w =>
        cases hop
        exact Value.plain_ofLiteral w.text
    | _ => cases hop
  · intro h
    exact map_reread_eq_self fun op hop => Op.reread_of_plain fun v hv => h v (hv ▸ hop)

namespace Image

/-! ## Writing -/

/-- The argument of an operation has a size that can be stored. -/
def Fits (op : Op) : Prop :=
  ∀ text, op.payload? = some text → text.utf8ByteSize ≤ 65535

theorem payloadSize_le_iff {op : Op} : payloadSize op ≤ maxPayload ↔ Fits op := by
  rw [payloadSize, Fits]
  cases op.payload? with
  | none => simp
  | some text => simp [Text.length_utf8, maxPayload]

theorem lt_payloadSize {op : Op} (h : maxPayload < payloadSize op) :
    ∃ text, op.payload? = some text ∧ 65535 < text.utf8ByteSize ∧ payloadSize op = text.utf8ByteSize := by
  cases hp : op.payload? with
  | none => simp [payloadSize, hp] at h
  | some text =>
      have hsize : payloadSize op = text.utf8ByteSize := by simp [payloadSize, hp, Text.length_utf8]
      exact ⟨text, rfl, hsize ▸ h, hsize⟩

/-- An error names the first operation that does not fit, by its place and the size of its argument. -/
def Oversized (ops : List Op) (e : EncodeError) : Prop :=
  ∃ op text, ops[e.index]? = some op ∧ op.payload? = some text ∧ e.size = text.utf8ByteSize ∧ 65535 < e.size
    ∧ ∀ k < e.index, ∀ o, ops[k]? = some o → Fits o

theorem Oversized.cons {op : Op} (hop : Fits op) {ops : List Op} {e : EncodeError} (h : Oversized ops e) :
    Oversized (op :: ops) ⟨e.index + 1, e.size⟩ := by
  obtain ⟨o, text, ho, htext, hsize, hlarge, hbefore⟩ := h
  refine ⟨o, text, ho, htext, hsize, hlarge, fun k hk p hp => ?_⟩
  cases k with
  | zero => cases hp; exact hop
  | succ k => exact hbefore k (by simpa using hk) p hp

theorem Oversized.index_le {ops : List Op} {e e' : EncodeError} (h : Oversized ops e) (h' : Oversized ops e') :
    e.index ≤ e'.index := by
  obtain ⟨op, text, hop, htext, hsize, hlarge, -⟩ := h'
  obtain ⟨-, -, -, -, -, -, hbefore⟩ := h
  by_contra hlt
  have hfits := hbefore e'.index (Nat.not_le.1 hlt) op hop text htext
  omega

theorem Oversized.unique {ops : List Op} {e e' : EncodeError} (h : Oversized ops e) (h' : Oversized ops e') : e = e' := by
  have hindex : e.index = e'.index := Nat.le_antisymm (h.index_le h') (h'.index_le h)
  obtain ⟨index, size⟩ := e
  obtain ⟨index', size'⟩ := e'
  obtain ⟨op, text, hop, htext, hsize, -⟩ := h
  obtain ⟨op', text', hop', htext', hsize', -⟩ := h'
  cases hindex
  cases hop.symm.trans hop'
  cases htext.symm.trans htext'
  rw [EncodeError.mk.injEq]
  exact ⟨rfl, hsize.trans hsize'.symm⟩

theorem Oversized.not_fits {ops : List Op} {e : EncodeError} (h : Oversized ops e) : ¬ ∀ op ∈ ops, Fits op := by
  obtain ⟨op, text, hop, htext, hsize, hlarge, -⟩ := h
  intro hall
  have hfits := hall op (List.mem_of_getElem? hop) text htext
  omega

/-- Operations fit and have an image, or the first that does not fit is reported. -/
theorem encodeFrom_cases (index : Nat) (ops : List Op) :
    ((∀ op ∈ ops, Fits op) ∧ ∃ bytes, encodeFrom index ops = .ok bytes)
      ∨ ∃ e, Oversized ops e ∧ encodeFrom index ops = .error ⟨index + e.index, e.size⟩ := by
  induction ops generalizing index with
  | nil => exact .inl ⟨by simp, [], rfl⟩
  | cons op ops ih =>
      rw [encodeFrom]
      split
      · rename_i hlarge
        obtain ⟨text, htext, hsize, heq⟩ := lt_payloadSize hlarge
        refine .inr ⟨⟨0, payloadSize op⟩, ⟨op, text, rfl, htext, heq, heq ▸ hsize, ?_⟩, rfl⟩
        exact fun k hk => absurd hk (Nat.not_lt_zero k)
      · rename_i hsmall
        have hop : Fits op := payloadSize_le_iff.1 (Nat.not_lt.1 hsmall)
        rcases ih (index + 1) with ⟨hops, bytes, hbytes⟩ | ⟨e, hover, he⟩
        · exact .inl ⟨List.forall_mem_cons.2 ⟨hop, hops⟩, opBytes op ++ bytes, by rw [hbytes]; rfl⟩
        · refine .inr ⟨_, hover.cons hop, ?_⟩
          rw [he, Nat.add_assoc, Nat.add_comm 1]
          rfl

theorem encode_eq_error_iff {ops : List Op} {e : EncodeError} : encode ops = .error e ↔ Oversized ops e := by
  rw [encode]
  rcases encodeFrom_cases 0 ops with ⟨hfits, bytes, hbytes⟩ | ⟨e', hover, he'⟩
  · rw [hbytes]
    exact ⟨nofun, fun h => absurd hfits h.not_fits⟩
  · rw [Nat.zero_add] at he'
    rw [he']
    constructor
    · rintro ⟨⟩
      exact hover
    · intro h
      rw [h.unique hover]

theorem exists_encode_iff {ops : List Op} : (∃ bytes, encode ops = .ok bytes) ↔ ∀ op ∈ ops, Fits op := by
  rw [encode]
  rcases encodeFrom_cases 0 ops with ⟨hfits, hbytes⟩ | ⟨e, hover, he⟩
  · exact ⟨fun _ => hfits, fun _ => hbytes⟩
  · rw [he]
    exact ⟨nofun, fun h => absurd h hover.not_fits⟩

/-! ## Reading -/

/-- Offsets are counted from where reading began. -/
theorem decodeFrom_add (skip offset shift : Nat) (bytes : List UInt8) :
    decodeFrom skip (offset + shift) bytes
      = (decodeFrom skip offset bytes).mapError fun e => { e with offset := e.offset + shift } := by
  induction bytes generalizing skip offset with
  | nil => cases skip <;> rfl
  | cons b bytes ih =>
      cases skip with
      | succ skip =>
          rw [decodeFrom, decodeFrom, Nat.add_right_comm, ih]
      | zero =>
          rw [decodeFrom, decodeFrom]
          cases decodeOp b bytes with
          | error fault => rfl
          | ok read =>
              obtain ⟨op, size⟩ := read
              simp only [Nat.add_right_comm offset shift 1, ih]
              cases decodeFrom size (offset + 1) bytes <;> rfl

/-- An image in front of other bytes is read on its own, and so are the bytes behind it. -/
theorem decode_append {ops : List Op} (hops : ∀ op ∈ ops, Storable op) {bytes : List UInt8}
    (h : encode ops = .ok bytes) (rest : List UInt8) :
    decode (bytes ++ rest)
      = ((decode rest).mapError fun e => { e with offset := e.offset + bytes.length }).map (ops.map Op.reread ++ ·) := by
  rw [decode, decodeFrom_encodeFrom hops h, decodeFrom_add, decode]

/-- Reading undoes writing, whatever stands behind an image. Operations have an image if all their arguments fit, and
otherwise the first that does not is reported. Slots are 64-bit words. -/
theorem decode_inverse_encode (ops : List Op) (hslots : ∀ op ∈ ops, Storable op) :
    ((∃ bytes, encode ops = .ok bytes) ↔ ∀ op ∈ ops, Fits op)
      ∧ (∀ e, encode ops = .error e ↔ Oversized ops e)
      ∧ (∀ bytes, encode ops = .ok bytes → ∀ rest,
        (∀ more, decode rest = .ok more → decode (bytes ++ rest) = .ok (ops.map Op.reread ++ more))
          ∧ ∀ e, decode rest = .error e →
            decode (bytes ++ rest) = .error { e with offset := e.offset + bytes.length })
      ∧ (ops.map Op.reread = ops ↔ ∀ v, .push v ∈ ops → v.Plain) := by
  refine ⟨exists_encode_iff, fun e => encode_eq_error_iff, fun bytes h rest => ⟨?_, ?_⟩, map_reread_eq_self_iff⟩
  · intro more hmore
    rw [decode_append hslots h, hmore]
    rfl
  · intro e he
    rw [decode_append hslots h, he]
    rfl

/-- A string that reads as a number, one of two bytes per character, and bytes behind the image that can be read in part
only. -/
theorem decode_inverse_encode_suffix :
    (∀ op ∈ [.pushSlot 12, .push (.string "12"), .push (.string "é"), .halt], Storable op)
      ∧ encode [.pushSlot 12, .push (.string "12"), .push (.string "é"), .halt]
        = .ok [16, 0, 2, 49, 50, 17, 0, 2, 49, 50, 17, 0, 2, 195, 169, 25]
      ∧ decode ([16, 0, 2, 49, 50, 17, 0, 2, 49, 50, 17, 0, 2, 195, 169, 25] ++ [25])
        = .ok [.pushSlot 12, .push (.number (.ofNat 12)), .push (.string "é"), .halt, .halt]
      ∧ decode ([16, 0, 2, 49, 50, 17, 0, 2, 49, 50, 17, 0, 2, 195, 169, 25] ++ [25, 99])
        = .error ⟨17, .unknownOpcode 99⟩ := by
  have hslots : ∀ op ∈ [.pushSlot 12, .push (.string "12"), .push (.string "é"), .halt], Storable op := by
    simp [Storable]
  have hbytes : encode [.pushSlot 12, .push (.string "12"), .push (.string "é"), .halt]
      = .ok [16, 0, 2, 49, 50, 17, 0, 2, 49, 50, 17, 0, 2, 195, 169, 25] := rfl
  obtain ⟨-, -, hread, -⟩ := decode_inverse_encode _ hslots
  have hreread : [Op.pushSlot 12, .push (.string "12"), .push (.string "é"), .halt].map Op.reread
      = [.pushSlot 12, .push (.number (.ofNat 12)), .push (.string "é"), .halt] := by
    decide +kernel
  refine ⟨hslots, hbytes, ?_, (hread _ hbytes [25, 99]).2 ⟨1, .unknownOpcode 99⟩ rfl⟩
  rw [(hread _ hbytes [25]).1 [.halt] rfl, hreread]
  rfl

/-! ## Writing what was read -/

/-- Operations that come back from their image as they are. -/
structure Settled (op : Op) : Prop where
  fits : Fits op
  storable : Storable op
  reread : op.reread = op

theorem slot?_lt {text : String} {slot : Nat} (h : slot? text = some slot) : slot < 2 ^ 64 := by
  simp only [slot?, Option.ite_none_right_eq_some, Bool.and_eq_true, decide_eq_true_eq, Option.some.injEq] at h
  obtain ⟨⟨-, hlt⟩, rfl⟩ := h
  exact hlt

theorem settled_pushSlot {slot : Nat} (h : slot < 2 ^ 64) : Settled (.pushSlot slot) := by
  refine ⟨?_, h, rfl⟩
  rintro text ⟨⟩
  have hdigits : (Nat.toDigits 10 slot).length ≤ 20 :=
    Nat.toDigits_length 10 slot 20 (by decide) (h.trans (by decide))
  rw [Nat.toString_eq_ofList_toDigits]
  exact (Number.utf8ByteSize_ofList_le _).trans (by omega)

theorem settled_push {text : String} (h : text.utf8ByteSize ≤ 65535) : Settled (.push (.ofLiteral text)) := by
  refine ⟨?_, trivial, ?_⟩
  · rintro text' ⟨⟩
    rcases Value.text_ofLiteral text with htext | ⟨x, hx, hnumber⟩
    · rwa [htext]
    · rw [hnumber]
      exact (Number.utf8ByteSize_text hx).trans (by decide)
  · rw [Op.reread, Op.mapLiteral, Value.reread_ofLiteral]

theorem settled_simple {op : Op} (h : op ∈ Op.simple) : Settled op := by
  have hall : ∀ op ∈ Op.simple, op.payload? = none := by decide
  have hnone := hall op h
  cases op with
  | pushSlot slot => cases hnone
  | push v => cases hnone
  | _ => exact ⟨nofun, trivial, rfl⟩

theorem size_of_payload {bytes : List UInt8} {text : String} {size : Nat} (h : payload bytes = .ok (text, size)) :
    text.utf8ByteSize ≤ 65535 := by
  match bytes, h with
  | hi :: lo :: rest, h =>
      simp only [payload] at h
      split at h
      · cases h
      · split at h
        · rename_i hread
          cases h
          have hhi := hi.toNat_lt
          have hlo := lo.toNat_lt
          rw [← Text.length_utf8, Text.utf8_of_ofUtf8? hread, List.length_take]
          omega
        · cases h

theorem settled_of_decodeOp {code : UInt8} {rest : List UInt8} {op : Op} {size : Nat}
    (h : decodeOp code rest = .ok (op, size)) : Settled op := by
  rw [decodeOp] at h
  split at h
  · cases hread : payload rest with
    | error fault => rw [hread] at h; cases h
    | ok read =>
        obtain ⟨text, length⟩ := read
        rw [hread] at h
        simp only [bind, Except.bind] at h
        split at h
        · rename_i hslot
          cases h
          exact settled_pushSlot (slot?_lt hslot)
        · cases h
  · split at h
    · cases hread : payload rest with
      | error fault => rw [hread] at h; cases h
      | ok read =>
          obtain ⟨text, length⟩ := read
          rw [hread] at h
          cases h
          exact settled_push (size_of_payload hread)
    · split at h
      · rename_i hfind
        cases h
        exact settled_simple (List.mem_of_find?_eq_some hfind)
      · cases h

theorem settled_of_decodeFrom {skip offset : Nat} {bytes : List UInt8} {ops : List Op}
    (h : decodeFrom skip offset bytes = .ok ops) : ∀ op ∈ ops, Settled op := by
  induction bytes generalizing skip offset ops with
  | nil =>
      cases skip <;> cases h <;> simp
  | cons b bytes ih =>
      cases skip with
      | succ skip => exact ih h
      | zero =>
          rw [decodeFrom] at h
          split at h
          · cases h
          · rename_i op size hop
            cases hrest : decodeFrom size (offset + 1) bytes with
            | error e => rw [hrest] at h; cases h
            | ok more =>
                rw [hrest] at h
                cases h
                exact List.forall_mem_cons.2 ⟨settled_of_decodeOp hop, ih hrest⟩

/-- Reads an image and writes it again. -/
def recode (bytes : List UInt8) : Option (List UInt8) :=
  (decode bytes).toOption.bind fun ops => (encode ops).toOption

/-- Whatever can be read can be written, and what is written reads the same, so writing again changes nothing. -/
theorem recode_stable {bytes : List UInt8} {ops : List Op} (h : decode bytes = .ok ops) :
    ∃ out, encode ops = .ok out ∧ decode out = .ok ops ∧ recode bytes = some out ∧ recode out = some out := by
  have hsettled := settled_of_decodeFrom h
  obtain ⟨out, hout⟩ := exists_encode_iff.2 fun op hop => (hsettled op hop).fits
  have hread : decode out = .ok ops := by
    rw [decode_encode (fun op hop => (hsettled op hop).storable) hout,
      map_reread_eq_self fun op hop => (hsettled op hop).reread]
  have hrecode : ∀ image, decode image = .ok ops → recode image = some out := by
    intro image himage
    simp [recode, himage, hout, Except.toOption]
  exact ⟨out, hout, hread, hrecode bytes h, hrecode out hread⟩

/-- A slot with a sign and a leading zero, a number with an exponent, and minus zero. -/
theorem recode_stable_spellings :
    ∃ ops, decode [16, 0, 3, 43, 48, 55, 17, 0, 3, 49, 101, 51, 17, 0, 2, 45, 48] = .ok ops
      ∧ ops = [.pushSlot 7, .push (.number (.ofNat 1000)), .push (.number (.ofRank true 0))]
      ∧ ∃ out, encode ops = .ok out ∧ decode out = .ok ops ∧ recode out = some out
        ∧ out = [16, 0, 1, 55, 17, 0, 4, 49, 48, 48, 48, 17, 0, 2, 45, 48] := by
  have hops : decode [16, 0, 3, 43, 48, 55, 17, 0, 3, 49, 101, 51, 17, 0, 2, 45, 48]
      = .ok [.pushSlot 7, .push (.number (.ofNat 1000)), .push (.number (.ofRank true 0))] := by
    decide +kernel
  have hout : encode [.pushSlot 7, .push (.number (.ofNat 1000)), .push (.number (.ofRank true 0))]
      = .ok [16, 0, 1, 55, 17, 0, 4, 49, 48, 48, 48, 17, 0, 2, 45, 48] := by
    decide +kernel
  obtain ⟨out, hencode, hdecode, -, hrecode⟩ := recode_stable hops
  cases hout.symm.trans hencode
  exact ⟨_, hops, rfl, _, hout, hdecode, hrecode, rfl⟩

end Image

end Scriptlet
