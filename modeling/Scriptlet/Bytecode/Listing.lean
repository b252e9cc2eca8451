import Scriptlet.Bytecode.Op

/-!
# Listings of operations

A listing shows one operation a line and marks those that a jump or a call goes to, as far as the literals
pushed before it tell.
-/

namespace Scriptlet.Bytecode

/-- The literal that holds the address for a jump, a branch or a call, among the literals pushed since the last
operation that used them up, the latest first. -/
def addressLiteral? (pending : List Value) : Op → Option Value
  | .jump => pending.head?
  | .branch => pending.getLast?
  | .call => pending[1]?
  | _ => none

/-- Operations that use up the literals pushed before them. -/
def usesUp : Op → Bool
  | .jump | .branch | .call | .store | .pop | .ret | .halt | .callBuiltin => true
  | _ => false

/-- The addresses below `size` to which the operations go. -/
def targetsFrom (size : Nat) : List Value → List Op → List Nat
  | _, [] => []
  | pending, .push v :: ops => targetsFrom size (v :: pending) ops
  | pending, op :: ops =>
    let target := ((addressLiteral? pending op).bind Value.toIndex?).filter (· < size)
    target.toList ++ targetsFrom size (if usesUp op then [] else pending) ops

/-- The addresses that a listing marks. -/
def targets (ops : List Op) : List Nat :=
  targetsFrom ops.length [] ops

/-- The lines of operations from an address on. -/
def linesFrom (marked : List Nat) (address : Nat) : List Op → List String
  | [] => []
  | op :: ops =>
    ((if address ∈ marked then "► " else "") ++ s!"{address}: {op.render}\n")
      :: linesFrom marked (address + 1) ops

/-- The listing of operations. -/
def listing (ops : List Op) : String :=
  String.join (linesFrom (targets ops) 0 ops)

end Scriptlet.Bytecode
