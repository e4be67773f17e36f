import Criteria.Expr.Builtin
import Criteria.Run

/-!
# Evaluating expressions

`Expr.evaluate` gives the value of an expression, for a resolver of field names
and a value to refer to, either of which may be left out. Operands and arguments
are evaluated first to last; `AND` and `OR` do not evaluate the right operand when
the left one decides. `Expr.test` is the truth value of the result.

Evaluation reads a field as the event `Event.read`, and has four faults of its
own: a reference without a value, a field without a resolver, an unknown function
and a wrong number of arguments. The fault of an operator that is no comparison is
there as well (`BinaryOp.apply`), but evaluation takes no such operator to it.
-/

namespace Criteria

/-- A relation in the order of numbers or of strings. Values of other kinds, or
of two kinds, are not ordered, and the relation is false of them. -/
def BinaryOp.onOrdered (number : Number → Number → Bool) (text : Text → Text → Bool) :
    Value → Value → Bool
  | .number a, .number b => number a b
  | .string s, .string t => text s t
  | _, _ => false

/-- **What a comparison of two values says.** "At most" is "not greater", for
not-a-number too. The connectives are not comparisons of values. -/
def BinaryOp.compare : BinaryOp → Value → Value → Bool
  | .eq, a, b => a.eq b
  | .ne, a, b => !a.eq b
  | .lt, a, b => onOrdered (fun m n => m.lt n) (fun s t => s.lt t) a b
  | .le, a, b => onOrdered (fun m n => !n.lt m) (fun s t => !t.lt s) a b
  | .gt, a, b => onOrdered (fun m n => n.lt m) (fun s t => t.lt s) a b
  | .ge, a, b => onOrdered (fun m n => !m.lt n) (fun s t => !s.lt t) a b
  | .isIn, a, .array xs => a.occurs xs
  | .isIn, _, _ => false
  | .and, a, b => a.truth && b.truth
  | .or, a, b => a.truth || b.truth

/-- **What an operator gives for two values.** A connective is no comparison: of values that
are ordered it is a fault, and false of the others. -/
def BinaryOp.apply (op : BinaryOp) (a b : Value) : Except Fault Value :=
  match op with
  | .and | .or =>
    if onOrdered (fun _ _ => true) (fun _ _ => true) a b then
      .error (.argument (.notComparison op.symbol))
    else .ok (.bool false)
  | op => .ok (.bool (op.compare a b))

namespace Expr

/-- A source of field values, which may be left out. -/
abbrev Resolver := Callable Text Value

/-- The value of a field from a resolver. -/
def resolve (resolver : Resolver) (field : Text) : Run Value :=
  match resolver with
  | none => .reject (.noResolver field)
  | some lookUp => do
    Run.event (.read field)
    lookUp field

mutual

/-- **The value of an expression.** -/
def evaluate (resolver : Resolver) (value : Option Value) : Expr → Run Value
  | .absent => .done .null
  | .literal v => .done v
  | .valueRef =>
    match value with
    | none => .reject .unboundValue
    | some v => .done v
  | .field name => resolve resolver name
  | .binary .and l r => do
    let a ← evaluate resolver value l
    if a.truth then do
      let b ← evaluate resolver value r
      .done (.bool b.truth)
    else .done (.bool false)
  | .binary .or l r => do
    let a ← evaluate resolver value l
    if a.truth then .done (.bool true)
    else do
      let b ← evaluate resolver value r
      .done (.bool b.truth)
  | .binary op l r => do
    let a ← evaluate resolver value l
    let b ← evaluate resolver value r
    op.apply a b
  | .not e => do
    let a ← evaluate resolver value e
    .done (.bool !a.truth)
  | .call name args =>
    match Builtin.ofName? name with
    | none => .reject (.unknownFunction name)
    | some f =>
      if args.length = f.arity then do
        let vs ← evaluateAll resolver value args
        .done (f.apply vs)
      else .reject (.arity name f.arity args.length)
  | .array es => do
    let vs ← evaluateAll resolver value es
    .done (.array vs)

/-- The values of several expressions, first to last. -/
def evaluateAll (resolver : Resolver) (value : Option Value) : List Expr → Run (List Value)
  | [] => .done []
  | e :: es => do
    let v ← evaluate resolver value e
    let vs ← evaluateAll resolver value es
    .done (v :: vs)

end

/-- **The truth value of an expression.** -/
def test (resolver : Resolver) (value : Option Value) (e : Expr) : Run Bool := do
  let v ← evaluate resolver value e
  .done v.truth

end Expr

end Criteria
