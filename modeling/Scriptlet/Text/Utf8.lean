/-!
# Text as bytes

The UTF-8 form of a text, as a list of bytes.
-/

namespace Scriptlet.Text

/-- The UTF-8 bytes of a text. -/
def utf8 (s : String) : List UInt8 :=
  s.toUTF8.data.toList

/-- The text that the bytes encode, if they are valid UTF-8. -/
def ofUtf8? (bytes : List UInt8) : Option String :=
  String.fromUTF8? ⟨bytes.toArray⟩

/-- Reading the bytes of a text gives the text. -/
@[simp]
theorem ofUtf8?_utf8 (s : String) : ofUtf8? (utf8 s) = some s := by
  have h : (⟨s.toUTF8.data.toList.toArray⟩ : ByteArray) = s.toUTF8 := by simp
  have hv : s.toUTF8.IsValidUTF8 := s.isValidUTF8
  simp only [ofUtf8?, utf8, h, String.fromUTF8?, dif_pos hv]
  rfl

/-- Bytes that can be read are those of the text that is read. -/
theorem utf8_of_ofUtf8? {bytes : List UInt8} {s : String} (h : ofUtf8? bytes = some s) : utf8 s = bytes := by
  simp only [ofUtf8?, String.fromUTF8?] at h
  split at h
  · cases h
    rfl
  · cases h

theorem utf8ByteSize_cons (c : Char) (cs : List Char) :
    (String.ofList (c :: cs)).utf8ByteSize = c.utf8Size + (String.ofList cs).utf8ByteSize := by
  rw [String.ofList_cons, String.utf8ByteSize_append, String.utf8ByteSize_singleton]

/-- The characters from a byte on, if the byte is the first of a character or the text ends before it. -/
def fromByte? : Nat → List Char → Option (List Char)
  | n, [] => if n = 0 then some [] else none
  | n, c :: cs =>
    if n = 0 then some (c :: cs)
    else if n < c.utf8Size then none
    else fromByte? (n - c.utf8Size) cs

/-- The bytes that are passed over and those of the rest are all bytes of the text. -/
theorem utf8ByteSize_of_fromByte? {n : Nat} {cs rest : List Char} (h : fromByte? n cs = some rest) :
    n + (String.ofList rest).utf8ByteSize = (String.ofList cs).utf8ByteSize := by
  fun_induction fromByte? n cs with
  | case1 => simp_all
  | case2 => cases h
  | case3 => simp_all
  | case4 => cases h
  | case5 n c cs _ hwide ih =>
    have hrest := ih h
    rw [utf8ByteSize_cons]
    omega

theorem length_utf8 (s : String) : (utf8 s).length = s.utf8ByteSize := by
  simp [utf8]

end Scriptlet.Text
