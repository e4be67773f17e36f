import Criteria.Fault
import Criteria.Value

/-!
# Expressions

A condition is described by an expression over the fields of an entity and, while
it is still to be applied, over a value that is not yet known (`Expr.valueRef`).

An operand may be missing; `Expr.absent` stands for it. The checked constructors
`Expr.makeBinary`, `Expr.makeNot` and `Expr.makeCall` refuse a missing operand,
so expressions built with them have none below an operator or a call; only the
elements of an array may be missing.
-/

namespace Criteria

/-- **The binary operators.** -/
inductive BinaryOp
  | eq | ne | lt | le | gt | ge | and | or | isIn
deriving DecidableEq

/-- How an operator is written. -/
def BinaryOp.symbol : BinaryOp → Text
  | .eq => "=="
  | .ne => "!="
  | .lt => "<"
  | .le => "<="
  | .gt => ">"
  | .ge => ">="
  | .and => "AND"
  | .or => "OR"
  | .isIn => "IN"

/-- **An expression.** -/
inductive Expr
  /-- An expression that is missing. -/
  | absent
  /-- A value as it stands. -/
  | literal (v : Value)
  /-- The value the condition is applied to. -/
  | valueRef
  /-- A field of the entity. -/
  | field (name : Text)
  /-- An operator between two operands. -/
  | binary (op : BinaryOp) (left right : Expr)
  /-- A negation. -/
  | not (operand : Expr)
  /-- A call of a function by its name. -/
  | call (name : Text) (arguments : List Expr)
  /-- An array of the values of its elements. -/
  | array (elements : List Expr)
deriving Inhabited

namespace Expr

/-- Whether the expression is missing. -/
def isAbsent : Expr → Bool
  | .absent => true
  | _ => false

/-! ## Checked construction -/

/-- A field, whose name must not be empty. -/
def makeField (name : Text) : Except Fault Expr :=
  if name.isEmpty then .error (.argument .emptyFieldName) else .ok (.field name)

/-- An operator between two operands that are both there. -/
def makeBinary (op : BinaryOp) (left right : Expr) : Except Fault Expr :=
  if left.isAbsent || right.isAbsent then .error (.argument (.missingOperand op.symbol))
  else .ok (.binary op left right)

/-- The negation of an operand that is there. -/
def makeNot (operand : Expr) : Except Fault Expr :=
  if operand.isAbsent then .error (.argument .missingNegand) else .ok (.not operand)

/-- A call with arguments that are all there. -/
def makeCall (name : Text) (arguments : List Expr) : Except Fault Expr :=
  if arguments.any isAbsent then .error (.argument (.missingArgument name))
  else .ok (.call name arguments)

/-! ## Applying a condition to a value -/

mutual

/-- Whether the expression refers to a value. -/
def containsValueRef : Expr → Bool
  | .valueRef => true
  | .binary _ l r => containsValueRef l || containsValueRef r
  | .not e => containsValueRef e
  | .call _ args => anyContainsValueRef args
  | .array es => anyContainsValueRef es
  | _ => false

/-- Whether one of the expressions refers to a value. -/
def anyContainsValueRef : List Expr → Bool
  | [] => false
  | e :: es => containsValueRef e || anyContainsValueRef es

end

mutual

/-- **The expression with `replacement` in place of the value it refers to.** An
expression without a reference stays as it is. Operators and calls are checked
again, the right operand before the left. -/
def bindValue (e replacement : Expr) : Except Fault Expr :=
  match e with
  | .valueRef => .ok replacement
  | .binary op l r =>
    if containsValueRef l || containsValueRef r then do
      let r ← bindValue r replacement
      let l ← bindValue l replacement
      makeBinary op l r
    else .ok (.binary op l r)
  | .not e => do
    let e ← bindValue e replacement
    .ok (.not e)
  | .call name args =>
    if anyContainsValueRef args then do
      let args ← bindValues args replacement
      makeCall name args
    else .ok (.call name args)
  | .array es => do
    let es ← bindValues es replacement
    .ok (.array es)
  | e => .ok e

/-- The expressions with `replacement` in place of the value, first to last. -/
def bindValues (es : List Expr) (replacement : Expr) : Except Fault (List Expr) :=
  match es with
  | [] => .ok []
  | e :: es => do
    let e ← bindValue e replacement
    let es ← bindValues es replacement
    .ok (e :: es)

end

/-- **Whether binding leaves the expression itself**: it refers to no value, or it
is the reference and is replaced by the reference. -/
def sharedAfterBind (e replacement : Expr) : Bool :=
  !e.containsValueRef ||
    match e, replacement with
    | .valueRef, .valueRef => true
    | _, _ => false

end Expr

end Criteria
