import Scriptlet.Number.Shortest
import Scriptlet.Text.Ranges

/-!
# Values

What a variable holds at run time: a number, a string, a truth value or nil. Every value has a text, and every
text is the literal of some value.
-/

namespace Scriptlet

/-- Values of the language. -/
inductive Value where
  | number (x : Number)
  | string (s : String)
  | boolean (b : Bool)
  | nil
deriving DecidableEq

namespace Value

/-- The value that a literal denotes: nil, a truth value, a finite number, or else the text itself. -/
def ofLiteral (text : String) : Value :=
  if text = "nil" then nil
  else if text = "true" then boolean true
  else if text = "false" then boolean false
  else match Number.parseFinite? text with
    | some x => number x
    | none => string text

/-- The number nearest to an index. -/
def ofIndex (n : Nat) : Value :=
  number (Number.ofNat n)

/-- The name of a value's type. -/
def typeName : Value → String
  | number _ => "number"
  | string _ => "string"
  | boolean _ => "boolean"
  | nil => "nil"

/-- The text of a value. -/
def text : Value → String
  | number x => Number.text x
  | string s => s
  | boolean b => if b then "true" else "false"
  | nil => "nil"

/-- All values but nil and false count as true. -/
def truthy : Value → Bool
  | nil => false
  | boolean b => b
  | _ => true

/-- Equality of the language: numbers compare as numbers, so zero equals minus zero and the undefined number
equals nothing. -/
def equals : Value → Value → Bool
  | number x, number y => x == y
  | string s, string t => s == t
  | boolean a, boolean b => a == b
  | nil, nil => true
  | _, _ => false

/-- The number that a value stands for: a number itself, or a string whose trimmed text is a finite number. -/
def toNumber? : Value → Option Number
  | number x => some x
  | string s => Number.parseFinite? (Text.trim s)
  | _ => none

/-- The index that a value stands for: a slot, an address or a count. Only numbers stand for one. -/
def toIndex? : Value → Option Nat
  | number x => Number.toIndex? x
  | _ => none

end Value

end Scriptlet
