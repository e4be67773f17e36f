import Criteria.Expr.Evaluation

/-!
# Value conditions

A `Condition` is a condition on one value, described by an expression over
`Expr.valueRef`. It is applied to a value directly (`Condition.test`) or bound to
an expression that takes the value's place (`Condition.bindTo`), such as a field.

The conditions below the type are the usual ones, each with its description. A
length that is an argument is an unsigned integer in the description; the zero
that emptiness compares with is a signed one.
-/

namespace Criteria

/-- **A condition on a value.** -/
structure Condition where
  /-- What it says of `Expr.valueRef`. -/
  description : Expr
  /-- The description is there. -/
  present : description.isAbsent = false := by rfl

namespace Condition

/-- The condition of a description that is there. -/
def ofExpr (description : Expr) : Except Fault Condition :=
  if h : description.isAbsent = false then .ok ⟨description, h⟩
  else .error (.argument .missingCondition)

/-- **Whether the condition holds of a value.** -/
def test (c : Condition) (v : Value) : Run Bool := c.description.test none (some v)

/-- The opposite condition. -/
def negated (c : Condition) : Condition where
  description := .not c.description

/-- **The condition as one on `target`**, which must be there. -/
def bindTo (c : Condition) (target : Expr) : Except Fault Expr :=
  if target.isAbsent then .error (.argument .missingTarget)
  else c.description.bindValue target

/-- The condition as text. -/
def text (c : Condition) : Except Fault Text := c.description.text

/-! ## The usual conditions -/

/-- A comparison of the value with a literal. -/
def compareWith (op : BinaryOp) (v : Value) : Condition where
  description := .binary op .valueRef (.literal v)

/-- The value equals `v`. -/
def equalTo (v : Value) : Condition := compareWith .eq v

/-- The value differs from `v`. -/
def notEqualTo (v : Value) : Condition := compareWith .ne v

/-- The value is greater than `v`. -/
def greaterThan (v : Value) : Condition := compareWith .gt v

/-- The value is at least `v`. -/
def greaterThanOrEqualTo (v : Value) : Condition := compareWith .ge v

/-- The value is less than `v`. -/
def lessThan (v : Value) : Condition := compareWith .lt v

/-- The value is at most `v`. -/
def lessThanOrEqualTo (v : Value) : Condition := compareWith .le v

/-- The value is at least `low` and at most `high`. -/
def between (low high : Value) : Condition where
  description :=
    .binary .and (.binary .ge .valueRef (.literal low)) (.binary .le .valueRef (.literal high))

/-- The value is one of the candidates. -/
def isIn (candidates : List Value) : Condition where
  description := .binary .isIn .valueRef (.array (candidates.map .literal))

/-- The value is none of the candidates. -/
def notIn (candidates : List Value) : Condition := (isIn candidates).negated

/-- A call of a function on the value. -/
def callOn (f : Builtin) (more : List Expr) : Expr := .call f.name (.valueRef :: more)

/-- The value is null. -/
def isNull : Condition where
  description := callOn .isNull []

/-- The value is not null. -/
def notNull : Condition := isNull.negated

/-- The value is true. -/
def isTrue : Condition := equalTo (.bool true)

/-- The value is false. -/
def isFalse : Condition := equalTo (.bool false)

/-- The value starts with a text. -/
def startsWith (part : Text) : Condition where
  description := callOn .startsWith [.literal (.string part)]

/-- The value ends with a text. -/
def endsWith (part : Text) : Condition where
  description := callOn .endsWith [.literal (.string part)]

/-- The value has a part or an element. -/
def contains (needle : Value) : Condition where
  description := callOn .contains [.literal needle]

/-- The value is a text up to the case of its ASCII letters. -/
def equalsIgnoreCase (t : Text) : Condition where
  description := .binary .eq (callOn .lower []) (.literal (.string t.lower))

/-- A comparison of the value's length with a number. -/
def lengthCompare (op : BinaryOp) (n : UInt64) : Expr :=
  .binary op (callOn .length []) (.literal (.uint n))

/-- The length is at least `n`. -/
def minLength (n : UInt64) : Condition where
  description := lengthCompare .ge n

/-- The length is at most `n`. -/
def maxLength (n : UInt64) : Condition where
  description := lengthCompare .le n

/-- **The length is at least `low` and at most `high`**, which must be in order. -/
def lengthBetween (low high : UInt64) : Except Fault Condition :=
  if high < low then .error (.argument (.lengthBounds low.toNat high.toNat))
  else .ok { description := .binary .and (lengthCompare .ge low) (lengthCompare .le high) }

/-- The value is null or of length zero. -/
def isEmpty : Condition where
  description :=
    .binary .or (callOn .isNull []) (.binary .eq (callOn .length []) (.literal (.int 0)))

/-- The value is neither null nor of length zero. -/
def notEmpty : Condition := isEmpty.negated

/-- The length is `n`. -/
def countEquals (n : UInt64) : Condition where
  description := lengthCompare .eq n

end Condition

end Criteria
