import Criteria.Expr

/-!
# Reading expressions from values

`Expr.ofValue` reads an expression from the tree of objects that `Expr.toValue`
writes. It builds with the checked constructors, the parts first to last, so a
missing operand is refused where it is needed; null is the missing expression. A
tree nested deeper than the given bound is cut off there.
-/

namespace Criteria

namespace BinaryOp

/-- All operators. -/
def all : List BinaryOp := [.eq, .ne, .lt, .le, .gt, .ge, .and, .or, .isIn]

/-- The operator of a symbol. -/
def ofSymbol? (symbol : Text) : Option BinaryOp := all.find? fun op => op.symbol = symbol

end BinaryOp

namespace Value

/-- The member of an object under a key, null if there is none. -/
def memberOrNull (v : Value) (key : Text) : Value := (v.get? key).getD .null

/-- The text of a string, empty for null; a value of another kind has none. -/
def toText : Value → Except Fault Text
  | .string t => .ok t
  | .null => .ok .empty
  | _ => .error (.value .kind)

mutual

/-- How deep a value is nested. -/
def depth : Value → Nat
  | .array xs => elementsDepth xs + 1
  | .object ms => membersDepth ms + 1
  | _ => 0

/-- How deep the elements of an array are nested. -/
def elementsDepth : List Value → Nat
  | [] => 0
  | x :: xs => max (depth x) (elementsDepth xs)

/-- How deep the members of an object are nested. -/
def membersDepth : List (Text × Value) → Nat
  | [] => 0
  | (_, x) :: ms => max (depth x) (membersDepth ms)

end

end Value

namespace Expr

/-- The fault of a value that is no expression. -/
def unreadable {α : Type} : Except Fault α := .error (.value .kind)

/-- An expression from a value that is nested no deeper than the bound. -/
def readBounded : Nat → Value → Except Fault Expr
  | _, .null => .ok .absent
  | 0, _ => unreadable
  | bound + 1, v => do
    let read := readBounded bound
    let type ← (v.memberOrNull "type").toText
    if type = "literal" then .ok (.literal (v.memberOrNull "value"))
    else if type = "value" then .ok .valueRef
    else if type = "field_access" then do
      let field ← (v.memberOrNull "field").toText
      makeField field
    else if type = "binary_op" then do
      let l ← read (v.memberOrNull "left")
      let r ← read (v.memberOrNull "right")
      let symbol ← (v.memberOrNull "operator").toText
      match BinaryOp.ofSymbol? symbol with
      | none => unreadable
      | some op => makeBinary op l r
    else if type = "unary_op" then do
      let e ← read (v.memberOrNull "operand")
      makeNot e
    else if type = "function_call" then do
      let args ← (v.memberOrNull "arguments").elements.mapM read
      let name ← (v.memberOrNull "name").toText
      makeCall name args
    else if type = "array_literal" then do
      let es ← (v.memberOrNull "elements").elements.mapM read
      .ok (.array es)
    else unreadable

/-- **The expression that a value holds.** -/
def ofValue (v : Value) : Except Fault Expr := readBounded (v.depth + 1) v

end Expr

end Criteria
