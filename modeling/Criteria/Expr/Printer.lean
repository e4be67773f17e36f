import Criteria.Expr
import Criteria.Value.Printer

/-!
# The two written forms of an expression

`Expr.text` is for people: operators between brackets, calls and arrays with
commas, literals as the text of their values. `Expr.toValue` is for providers: a
tree of objects, each with a `type` and with the parts under fixed keys.

Both go through the parts of an expression, which have to be there. The text needs
its literals to be UTF-8 as well; names go into it byte by byte.
-/

namespace Criteria

namespace Expr

mutual

/-- **The expression as text.** -/
def text : Expr → Except Fault Text
  | .absent => .error .undefined
  | .literal v => v.dump
  | .valueRef => .ok "value"
  | .field name => .ok ("entity." ++ name)
  | .binary op l r => do
    let left ← text l
    let right ← text r
    .ok ("(" ++ left ++ " " ++ op.symbol ++ " " ++ right ++ ")")
  | .not e => do
    let operand ← text e
    .ok ("NOT " ++ operand)
  | .call name args => do
    let arguments ← texts args
    .ok (name ++ "(" ++ .intercalate ", " arguments ++ ")")
  | .array es => do
    let elements ← texts es
    .ok ("[" ++ .intercalate ", " elements ++ "]")

/-- The texts of several expressions, first to last. -/
def texts : List Expr → Except Fault (List Text)
  | [] => .ok []
  | e :: es => do
    let first ← text e
    let rest ← texts es
    .ok (first :: rest)

end

mutual

/-- **The expression as a value.** The members of every object are in the order
of their keys. -/
def toValue : Expr → Except Fault Value
  | .absent => .error .undefined
  | .literal v => .ok (.object [("type", .string "literal"), ("value", v)])
  | .valueRef => .ok (.object [("type", .string "value")])
  | .field name => .ok (.object [("field", .string name), ("type", .string "field_access")])
  | .binary op l r => do
    let left ← toValue l
    let right ← toValue r
    .ok (.object [("left", left), ("operator", .string op.symbol), ("right", right),
      ("type", .string "binary_op")])
  | .not e => do
    let operand ← toValue e
    .ok (.object [("operand", operand), ("operator", .string "NOT"),
      ("type", .string "unary_op")])
  | .call name args => do
    let arguments ← toValues args
    .ok (.object [("arguments", .array arguments), ("name", .string name),
      ("type", .string "function_call")])
  | .array es => do
    let elements ← toValues es
    .ok (.object [("elements", .array elements), ("type", .string "array_literal")])

/-- Several expressions as values, first to last. -/
def toValues : List Expr → Except Fault (List Value)
  | [] => .ok []
  | e :: es => do
    let first ← toValue e
    let rest ← toValues es
    .ok (first :: rest)

end

end Expr

end Criteria
