import Criteria.Order
import Criteria.Text
import Criteria.Binary.Format

/-!
# Values

Conditions are evaluated on dynamic values: null, truth values, numbers,
strings, arrays and objects. A number is a signed or an unsigned 64-bit integer
or a floating-point number, and keeps which of the three it is.

Two orders live side by side, and differ only in how they rank the kinds
(`Value.compareBy`). `Value.lt` is the order of values as such, by which distinct
values are told apart and values used directly as sort keys are compared; it
ranks null, truth value, number, object, array, string. `Value.compare` is the
comparison by which descriptions sort; it ranks null, truth value, number,
string, array, object.
-/

namespace Criteria

/-! ## Numbers -/

/-- **A number**, in one of three kinds. -/
inductive Number
  /-- A signed integer. -/
  | int (n : Int64)
  /-- An unsigned integer. -/
  | uint (n : UInt64)
  /-- A floating-point number. -/
  | float (x : Double)
deriving DecidableEq

namespace Number

/-- The nearest floating-point number. -/
def toDouble : Number → Double
  | .int n => .ofInt .double n.toInt
  | .uint n => .ofInt .double n.toNat
  | .float x => x

/-- An integer as a signed 64-bit one; an unsigned integer from `2 ^ 63` up wraps.
(A floating-point number is not asked.) -/
def signed : Number → Int64
  | .int n => n
  | .uint n => n.toInt64
  | .float _ => 0

/-- **Equality of numbers.** Next to a floating-point number both are
floating-point; two unsigned integers are compared as they are; otherwise both
are signed. -/
def eq : Number → Number → Bool
  | .float x, b => x.eq b.toDouble
  | a, .float y => a.toDouble.eq y
  | .uint m, .uint n => m == n
  | a, b => a.signed == b.signed

/-- **The order of numbers**, under the conversions of `Number.eq`. -/
def lt : Number → Number → Bool
  | .float x, b => x.lt b.toDouble
  | a, .float y => a.toDouble.lt y
  | .uint m, .uint n => decide (m < n)
  | a, b => decide (a.signed < b.signed)

/-- Whether the number is an integer of either kind. -/
def isInteger : Number → Bool
  | .float _ => false
  | _ => true

end Number

/-! ## Values -/

/-- **A value.** The members of an object are in the order of their keys, each
key once; `Value.insert` keeps them so. -/
inductive Value
  /-- No value. -/
  | null
  /-- A truth value. -/
  | bool (b : Bool)
  /-- A number. -/
  | number (n : Number)
  /-- A string. -/
  | string (t : Text)
  /-- A sequence of values. -/
  | array (elements : List Value)
  /-- Values under keys. -/
  | object (members : List (Text × Value))
deriving Inhabited

namespace Value

/-- A signed integer as a value. -/
def int (n : Int64) : Value := .number (.int n)

/-- An unsigned integer as a value. -/
def uint (n : UInt64) : Value := .number (.uint n)

/-- A floating-point number as a value. -/
def float (x : Double) : Value := .number (.float x)

/-- A length or a count as a value: an unsigned integer. -/
def size (n : Nat) : Value := uint (.ofNat n)

/-- Whether the value is null. -/
def isNull : Value → Bool
  | .null => true
  | _ => false

/-! ## Members of objects -/

/-- The members with one more under `key`, which replaces one that is there. -/
def insertMember (key : Text) (v : Value) : List (Text × Value) → List (Text × Value)
  | [] => [(key, v)]
  | (k, w) :: rest =>
    if key = k then (key, v) :: rest
    else if key.lt k then (key, v) :: (k, w) :: rest
    else (k, w) :: insertMember key v rest

/-- The object with these members, the last of several under one key. -/
def ofMembers (members : List (Text × Value)) : Value :=
  .object (members.foldl (fun done m => insertMember m.1 m.2 done) [])

/-- The member under a key. -/
def member? (key : Text) : List (Text × Value) → Option Value
  | [] => none
  | (k, v) :: rest => if key = k then some v else member? key rest

/-- The member of an object under a key; other values have no members. -/
def get? (key : Text) : Value → Option Value
  | .object members => member? key members
  | _ => none

/-- **The values a loop over a value visits**: the elements of an array, the
members of an object, nothing for null, and any other value itself. -/
def elements : Value → List Value
  | .null => []
  | .array xs => xs
  | .object members => members.map (·.2)
  | v => [v]

/-! ## Equality -/

mutual

/-- **Equality of values.** Values of different kinds differ; numbers compare as
numbers, and arrays and objects element by element. -/
def eq : Value → Value → Bool
  | .null, .null => true
  | .bool a, .bool b => a == b
  | .number a, .number b => a.eq b
  | .string a, .string b => decide (a = b)
  | .array xs, .array ys => eqElements xs ys
  | .object ms, .object ns => eqMembers ms ns
  | _, _ => false

/-- Equality of the elements of two arrays. -/
def eqElements : List Value → List Value → Bool
  | [], [] => true
  | x :: xs, y :: ys => eq x y && eqElements xs ys
  | _, _ => false

/-- Equality of the members of two objects. -/
def eqMembers : List (Text × Value) → List (Text × Value) → Bool
  | [], [] => true
  | (k, x) :: ms, (l, y) :: ns => decide (k = l) && eq x y && eqMembers ms ns
  | _, _ => false

end

/-- Whether an equal value is among the elements. -/
def occurs (v : Value) (xs : List Value) : Bool := xs.any fun x => x.eq v

/-! ## Order -/

/-- The kinds of values. -/
inductive Kind
  | null | bool | number | string | array | object
deriving DecidableEq

/-- The kind of a value. -/
def kind : Value → Kind
  | .null => .null
  | .bool _ => .bool
  | .number _ => .number
  | .string _ => .string
  | .array _ => .array
  | .object _ => .object

mutual

/-- **Comparison under a ranking of the kinds.** Between kinds the rank decides.
False comes before true, numbers and strings compare as such, arrays compare
lexicographically, and so do objects, member by member, the key first. -/
def compareBy (rank : Kind → Nat) : Value → Value → Ordering
  | .null, .null => .eq
  | .bool a, .bool b => threeWay (fun a b => !a && b) a b
  | .number a, .number b => threeWay Number.lt a b
  | .string a, .string b => threeWay Text.lt a b
  | .array xs, .array ys => compareElements rank xs ys
  | .object ms, .object ns => compareMembers rank ms ns
  | a, b => threeWay (fun m n => decide (m < n)) (rank a.kind) (rank b.kind)

/-- Lexicographic comparison of the elements of two arrays. -/
def compareElements (rank : Kind → Nat) : List Value → List Value → Ordering
  | [], [] => .eq
  | [], _ :: _ => .lt
  | _ :: _, [] => .gt
  | x :: xs, y :: ys => (compareBy rank x y).then (compareElements rank xs ys)

/-- Lexicographic comparison of the members of two objects. -/
def compareMembers (rank : Kind → Nat) :
    List (Text × Value) → List (Text × Value) → Ordering
  | [], [] => .eq
  | [], _ :: _ => .lt
  | _ :: _, [] => .gt
  | (k, x) :: ms, (l, y) :: ns =>
    (threeWay Text.lt k l).then ((compareBy rank x y).then (compareMembers rank ms ns))

end

/-- The ranking of kinds among values as such. -/
def nativeRank : Kind → Nat
  | .null => 0
  | .bool => 1
  | .number => 2
  | .object => 3
  | .array => 4
  | .string => 5

/-- The ranking of kinds by which descriptions sort. -/
def describedRank : Kind → Nat
  | .null => 0
  | .bool => 1
  | .number => 2
  | .string => 3
  | .array => 4
  | .object => 5

/-- **The order of values as such.** -/
def lt (a b : Value) : Bool := compareBy nativeRank a b == .lt

/-- **The comparison by which descriptions sort.** -/
def compare (a b : Value) : Ordering := compareBy describedRank a b

/-! ## Truth -/

/-- **The truth value of a value.** A number is true unless it is zero; a string,
an array or an object unless it is empty; null is false. -/
def truth : Value → Bool
  | .null => false
  | .bool b => b
  | .number n => n.toDouble.val.isNonzero
  | .string t => !t.isEmpty
  | .array xs => !xs.isEmpty
  | .object ms => !ms.isEmpty

end Value

end Criteria
