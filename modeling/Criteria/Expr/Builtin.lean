import Criteria.Fault
import Criteria.Value

/-!
# Built-in functions

Eight functions may be called in an expression. Each has a name, a number of
arguments and a meaning on values that is defined everywhere: on values of a kind
it is not made for, a test is false and a length or a transformation is null.
-/

namespace Criteria

/-- **A function that expressions can call.** -/
inductive Builtin
  | isNull | length | startsWith | endsWith | contains | lower | upper | trim
deriving DecidableEq

namespace Builtin

/-- All of them. -/
def all : List Builtin :=
  [isNull, length, startsWith, endsWith, contains, lower, upper, trim]

/-- The name it is called by. -/
def name : Builtin → Text
  | isNull => "IS_NULL"
  | length => "LENGTH"
  | startsWith => "STARTS_WITH"
  | endsWith => "ENDS_WITH"
  | contains => "CONTAINS"
  | lower => "LOWER"
  | upper => "UPPER"
  | trim => "TRIM"

/-- How many arguments it takes. -/
def arity : Builtin → Nat
  | isNull | length | lower | upper | trim => 1
  | startsWith | endsWith | contains => 2

/-- The function of a name. -/
def ofName? (name : Text) : Option Builtin := all.find? fun f => f.name = name

/-- The length of a string in bytes, or of a container in elements. -/
def lengthOf : Value → Value
  | .string t => .size t.size
  | .array xs => .size xs.length
  | .object ms => .size ms.length
  | _ => .null

/-- A relation between two strings; false of other values. -/
def onStrings (test : Text → Text → Bool) : Value → Value → Value
  | .string s, .string t => .bool (test s t)
  | _, _ => .bool false

/-- Whether a string has a part, or an array an equal element. -/
def containsIn : Value → Value → Value
  | .string s, .string t => .bool (s.contains t)
  | .array xs, v => .bool (v.occurs xs)
  | _, _ => .bool false

/-- A transformation of strings; null for other values. -/
def onString (f : Text → Text) : Value → Value
  | .string t => .string (f t)
  | _ => .null

/-- **What a function gives** for as many arguments as it takes. -/
def apply : Builtin → List Value → Value
  | isNull, [v] => .bool v.isNull
  | length, [v] => lengthOf v
  | startsWith, [s, t] => onStrings Text.startsWith s t
  | endsWith, [s, t] => onStrings Text.endsWith s t
  | contains, [s, t] => containsIn s t
  | lower, [v] => onString Text.lower v
  | upper, [v] => onString Text.upper v
  | trim, [v] => onString Text.trim v
  | _, _ => .null

end Builtin

end Criteria
