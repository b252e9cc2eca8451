import Mathlib.Tactic
import Scriptlet.Bytecode.Image
import Scriptlet.Proofs.Number.Text

/-!
# What an image keeps

An image stores a literal as its text, so a literal comes back as what its text denotes. For all literals but strings that
look like something else this is the literal itself. Everything else in an operation comes back as it was.
-/

namespace Scriptlet

/-! ## Literals read again -/

namespace Value

/-- The value that is read back when a value is stored as its text. -/
def reread (v : Value) : Value :=
  ofLiteral v.text

theorem ofLiteral_of_parse {text : String} {x : Number} (h : Number.parseFinite? text = some x) :
    ofLiteral text = number x := by
  have hword : ∀ w, Number.parseFinite? w = none → text ≠ w := by
    rintro w hw rfl
    rw [hw] at h; cases h
  rw [ofLiteral, if_neg (hword _ (by decide +kernel)), if_neg (hword _ (by decide +kernel)),
    if_neg (hword _ (by decide +kernel)), h]

@[simp]
theorem reread_nil : reread nil = nil := by
  simp [reread, text, ofLiteral]

@[simp]
theorem reread_boolean (b : Bool) : reread (boolean b) = boolean b := by
  cases b <;> simp [reread, text, ofLiteral]

theorem reread_number {x : Number} (h : x.finite = true) : reread (number x) = number x :=
  ofLiteral_of_parse (Number.parseFinite?_text h)

theorem reread_ofLiteral (text : String) : reread (ofLiteral text) = ofLiteral text := by
  rw [ofLiteral]
  split
  · exact reread_nil
  · split
    · exact reread_boolean true
    · split
      · exact reread_boolean false
      · split
        · rename_i x hx
          apply reread_number
          rw [Number.parseFinite?, Option.filter_eq_some_iff] at hx
          exact hx.2
        · rename_i hnil htrue hfalse _ hparse
          simp [reread, Value.text, ofLiteral, hnil, htrue, hfalse, hparse]

theorem reread_ofIndex {n : Nat} (h : n < 2 ^ 53) : reread (ofIndex n) = ofIndex n :=
  reread_number (Number.finite_ofNat h)

end Value

/-- Changes the literal that an operation pushes. -/
def Op.mapLiteral (literal : Value → Value) : Op → Op
  | .push v => .push (literal v)
  | op => op

/-- The operation that is read back from an image. -/
def Op.reread : Op → Op :=
  Op.mapLiteral Value.reread

namespace Image

/-! ## Arguments -/

/-- A length is read back from its two bytes. -/
theorem toNat_lengthBytes {n : Nat} (h : n ≤ maxPayload) :
    256 * (UInt8.ofNat (n / 256)).toNat + (UInt8.ofNat (n % 256)).toNat = n := by
  rw [maxPayload] at h
  simp only [UInt8.toNat_ofNat']
  omega

theorem payload_lengthBytes {text : String} (h : (Text.utf8 text).length ≤ maxPayload) (rest : List UInt8) :
    payload (lengthBytes (Text.utf8 text).length ++ (Text.utf8 text ++ rest))
      = .ok (text, (Text.utf8 text).length + 2) := by
  simp only [payload, lengthBytes, List.cons_append, List.nil_append, toNat_lengthBytes h, List.take_left,
    Text.ofUtf8?_utf8]
  rw [if_neg (by omega)]

theorem slot?_toString {slot : Nat} (h : slot < 2 ^ 64) : slot? (toString slot) = some slot := by
  have hdigits : (toString slot).toList = Nat.toDigits 10 slot := by
    rw [Nat.toString_eq_ofList_toDigits, String.toList_ofList]
  have hplus : ∀ rest, Nat.toDigits 10 slot ≠ '+' :: rest := by
    intro rest hc
    have := Number.isDigit_toDigits slot '+' (by simp [hc])
    revert this; decide
  simp only [slot?, hdigits]
  rw [Nat.ofDigitChars_ten_toDigits, List.all_eq_true.mpr (Number.isDigit_toDigits slot),
    List.isEmpty_eq_false_iff.mpr Nat.toDigits_ne_nil, Nat.pow_eq, decide_eq_true h]
  rfl

/-! ## Operations -/

/-- Slots that an image can store. -/
def Storable : Op → Prop
  | .pushSlot slot => slot < 2 ^ 64
  | _ => True

theorem find?_simple {op : Op} (h : op.payload? = none) :
    Op.simple.find? (fun other => other.opcode == op.opcode) = some op := by
  cases op with
  | binary op => cases op <;> decide
  | unary op => cases op <;> decide
  | pushSlot slot => cases h
  | push v => cases h
  | _ => decide

theorem opcode_ne {op : Op} (h : op.payload? = none) : op.opcode ≠ 16 ∧ op.opcode ≠ 17 := by
  cases op with
  | binary op => cases op <;> decide
  | unary op => cases op <;> decide
  | pushSlot slot => cases h
  | push v => cases h
  | _ => decide

/-- Reading the bytes of an operation gives the operation, whatever follows them. -/
theorem decodeOp_opBytes {op : Op} (hop : Storable op) (h : payloadSize op ≤ maxPayload) (rest : List UInt8) :
    ∃ bytes, opBytes op = op.opcode :: bytes ∧
      decodeOp op.opcode (bytes ++ rest) = .ok (op.reread, bytes.length) := by
  cases hp : op.payload? with
  | none =>
      refine ⟨[], by simp [opBytes, hp], ?_⟩
      obtain ⟨h16, h17⟩ := opcode_ne hp
      have hreread : op.reread = op := by
        cases op <;> first | rfl | cases hp
      simp only [decodeOp, h16, h17, if_false, find?_simple hp, hreread, List.length_nil]
  | some text =>
      refine ⟨lengthBytes (Text.utf8 text).length ++ Text.utf8 text, by simp [opBytes, hp], ?_⟩
      have hsize : (Text.utf8 text).length ≤ maxPayload := by simpa [payloadSize, hp] using h
      have hread := payload_lengthBytes hsize rest
      rw [← List.append_assoc] at hread
      have hlen : (lengthBytes (Text.utf8 text).length ++ Text.utf8 text).length
          = (Text.utf8 text).length + 2 := by
        simp [lengthBytes]
      rw [hlen]
      cases op with
      | pushSlot slot =>
          cases hp
          simp only [decodeOp, Op.opcode, if_true, hread, bind, Except.bind, slot?_toString hop, Op.reread,
            Op.mapLiteral]
      | push v =>
          cases hp
          simp only [decodeOp, Op.opcode, if_true, hread, bind, Except.bind, Op.reread, Op.mapLiteral, Value.reread]
          rfl
      | _ => cases hp

theorem decodeFrom_skip (passed : List UInt8) (offset : Nat) (rest : List UInt8) :
    decodeFrom passed.length offset (passed ++ rest) = decodeFrom 0 (offset + passed.length) rest := by
  induction passed generalizing offset with
  | nil => rfl
  | cons b passed ih =>
      simp only [List.length_cons, List.cons_append, decodeFrom, ih]
      congr 1; omega

/-- Reading an image that is followed by more bytes gives its operations and goes on behind it. -/
theorem decodeFrom_encodeFrom {ops : List Op} (hops : ∀ op ∈ ops, Storable op) {index : Nat}
    {bytes : List UInt8} (h : encodeFrom index ops = .ok bytes) (offset : Nat) (rest : List UInt8) :
    decodeFrom 0 offset (bytes ++ rest)
      = (decodeFrom 0 (offset + bytes.length) rest).map (ops.map Op.reread ++ ·) := by
  induction ops generalizing index bytes offset with
  | nil =>
      cases h
      simp only [List.nil_append, List.length_nil, Nat.add_zero, List.map_nil]
      cases decodeFrom 0 offset rest <;> rfl
  | cons op ops ih =>
      rw [encodeFrom] at h
      split at h
      · cases h
      · rename_i hsize
        cases htail : encodeFrom (index + 1) ops with
        | error e => rw [htail] at h; cases h
        | ok tail =>
            rw [htail] at h
            cases h
            obtain ⟨args, hbytes, hread⟩ := decodeOp_opBytes (hops op (by simp)) (Nat.not_lt.mp hsize)
              (tail ++ rest)
            have hlen : offset + 1 + args.length + tail.length = offset + (opBytes op ++ tail).length := by
              rw [hbytes]; simp; omega
            have hgo := ih (fun o ho => hops o (by simp [ho])) htail (offset + 1 + args.length)
            rw [hlen] at hgo
            simp only [hbytes, List.append_assoc, List.cons_append, decodeFrom, hread, decodeFrom_skip, hgo]
            cases decodeFrom 0 (offset + (op.opcode :: (args ++ tail)).length) rest <;> rfl

/-- Reading an image gives the operations with their literals read again. -/
theorem decode_encode {ops : List Op} (hops : ∀ op ∈ ops, Storable op) {bytes : List UInt8}
    (h : encode ops = .ok bytes) : decode bytes = .ok (ops.map Op.reread) := by
  have hread := decodeFrom_encodeFrom hops h 0 []
  rw [List.append_nil, decodeFrom] at hread
  simpa [decode, Except.map] using hread

end Image

end Scriptlet
