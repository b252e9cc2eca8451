import Scriptlet.Text.Alphabetic
import Scriptlet.Text.Mark
import Scriptlet.Text.Ranges

/-!
# Word characters

The characters of which identifiers are made. There are two views of them: the wide one used to cut a text
into tokens (`isWord`, `isWordStart`, `isWordDigit`), and the narrow one by which an operand counts as a variable
(`isAlphanumeric`). The wide view knows no character of the latest edition of Unicode.
-/

namespace Scriptlet.Text

/-- The ranges of the general category `Pc`, ascending: the underscore and its relatives. -/
def connectorRanges : List (Nat × Nat) :=
  [(0x5f, 0x5f), (0x203f, 0x2040), (0x2054, 0x2054), (0xfe33, 0xfe34), (0xfe4d, 0xfe4f),
   (0xff3f, 0xff3f)]

/-- Punctuation that connects words. -/
def isConnector (c : Char) : Bool :=
  inRanges c.toNat connectorRanges

/-- The zero-width joiner and non-joiner. -/
def isJoiner (c : Char) : Bool :=
  c.toNat == 0x200c || c.toNat == 0x200d

/-- Characters that may continue an identifier. -/
def isWord (c : Char) : Bool :=
  (isAlphabetic c || isMark c || isDigit c || isConnector c || isJoiner c) && !isRecent c

/-- Word characters that are decimal digits: the digits of numbers in a text. -/
def isWordDigit (c : Char) : Bool :=
  isDigit c && !isRecent c

/-- Characters that may begin an identifier: word characters other than decimal digits. -/
def isWordStart (c : Char) : Bool :=
  isWord c && !isWordDigit c

/-- Letters and numerals. -/
def isAlphanumeric (c : Char) : Bool :=
  isAlphabetic c || isNumeral c

end Scriptlet.Text
