import Criteria.Fault
import Criteria.Numeric

/-!
# The types of fields

A field has one of the types below, and its values are ordinary data: truth
values, integers of fixed width, floating-point numbers of two formats, texts,
lists, dictionaries (as lists of pairs in the order of their keys), data that may
be absent, and values as such. For each type there are, by recursion on it,

* the value that stands for a datum (`FieldType.toValue`), and the datum that a
  value stands for, if it is of the right kind (`FieldType.ofValue`);
* the order of the type itself (`FieldType.lt`), by which sort keys compare;
* its equality (`FieldType.same`), by which entities are grouped.
-/

namespace Criteria

/-- **The type of a field.** -/
inductive FieldType
  /-- Truth values. -/
  | bool
  /-- Integers of a fixed width. -/
  | int (t : IntType)
  /-- Floating-point numbers of 24 bits. -/
  | single
  /-- Floating-point numbers of 53 bits. -/
  | double
  /-- Texts. -/
  | text
  /-- Lists. -/
  | list (t : FieldType)
  /-- Dictionaries with texts as keys. -/
  | dict (t : FieldType)
  /-- Data that may be absent. -/
  | optional (t : FieldType)
  /-- Values as such. -/
  | value
deriving DecidableEq

namespace FieldType

/-- **The data of a type.** -/
@[reducible] def Val : FieldType → Type
  | .bool => Bool
  | .int t => FixedInt t
  | .single => Floating .single
  | .double => Double
  | .text => Text
  | .list t => List t.Val
  | .dict t => List (Text × t.Val)
  | .optional t => Option t.Val
  | .value => Value

/-- The datum of an entity that is given none. -/
def default : (t : FieldType) → t.Val
  | .bool => false
  | .int t => .wrap t 0
  | .single => .zero
  | .double => .zero
  | .text => .empty
  | .list _ => []
  | .dict _ => []
  | .optional _ => none
  | .value => .null

/-! ## Data as values -/

/-- **The value that stands for a datum.** -/
def toValue : (t : FieldType) → t.Val → Value
  | .bool, b => .bool b
  | .int _, n => .number n.toNumber
  | .single, x => .float (x.convert .double)
  | .double, x => .float x
  | .text, s => .string s
  | .list t, xs => .array (xs.map t.toValue)
  | .dict t, ms => .object (ms.map fun m => (m.1, t.toValue m.2))
  | .optional _, none => .null
  | .optional t, some x => t.toValue x
  | .value, v => v

/-- A truth value as a number. -/
def boolNumber (b : Bool) : Number := .int (if b then 1 else 0)

/-- The fault of a value of another kind. -/
def otherKind {α : Type} : Except Fault α := .error (.value .kind)

/-- **The datum that a value stands for.** Any number converts to any numeric
type. A truth value converts too, as zero or one, except to the 64-bit integers
and to the floating-point numbers of 53 bits. -/
def ofValue : (t : FieldType) → Value → Except Fault t.Val
  | .bool, .bool b => .ok b
  | .bool, _ => otherKind
  | .int t, .number n => .ok (.ofNumber t n)
  | .int t, .bool b =>
    if t.width = .w64 then otherKind else .ok (.ofNumber t (boolNumber b))
  | .int _, _ => otherKind
  | .single, .number n => .ok (n.toFloating .single)
  | .single, .bool b => .ok ((boolNumber b).toFloating .single)
  | .single, _ => otherKind
  | .double, .number n => .ok (n.toFloating .double)
  | .double, _ => otherKind
  | .text, .string s => .ok s
  | .text, _ => otherKind
  | .list t, .array xs => xs.mapM t.ofValue
  | .list _, _ => otherKind
  | .dict t, .object ms => ms.mapM fun m => do
    let x ← t.ofValue m.2
    .ok (m.1, x)
  | .dict _, _ => otherKind
  | .optional _, .null => .ok none
  | .optional t, v => do
    let x ← t.ofValue v
    .ok (some x)
  | .value, v => .ok v

/-- A value as a wide number. -/
def decimalOfValue : Value → Except Fault Decimal
  | .number n => .ok (n.toFloating .extended)
  | .bool b => .ok ((boolNumber b).toFloating .extended)
  | _ => otherKind

/-- A value as a count. -/
def countOfValue (v : Value) : Except Fault (FixedInt ⟨false, .w64⟩) :=
  (FieldType.int ⟨false, .w64⟩).ofValue v

end FieldType

/-- **The member of an object** under a key that has to be there. -/
def Value.at (v : Value) (key : Text) : Except Fault Value :=
  match v with
  | .object ms =>
    match Value.member? key ms with
    | none => .error (.value .missingKey)
    | some x => .ok x
  | _ => .error (.value .kind)

namespace FieldType

/-! ## Order and equality -/

/-- The order of pairs: the key first, then the datum. -/
def pairLess {α : Type} (less : α → α → Bool) (a b : Text × α) : Bool :=
  a.1.lt b.1 || (!b.1.lt a.1 && less a.2 b.2)

/-- **The order of a type.** False is before true, absent before present, and
lists and dictionaries are ordered lexicographically. -/
def lt : (t : FieldType) → t.Val → t.Val → Bool
  | .bool, a, b => !a && b
  | .int _, a, b => a.lt b
  | .single, a, b => Floating.lt a b
  | .double, a, b => Floating.lt a b
  | .text, a, b => a.lt b
  | .list t, a, b => lexLess t.lt a b
  | .dict t, a, b => lexLess (pairLess t.lt) a b
  | .optional _, _, none => false
  | .optional _, none, some _ => true
  | .optional t, some a, some b => t.lt a b
  | .value, a, b => a.lt b

/-- Elementwise equality of lists. -/
def sameList {α : Type} (same : α → α → Bool) : List α → List α → Bool
  | [], [] => true
  | x :: xs, y :: ys => same x y && sameList same xs ys
  | _, _ => false

/-- **The equality of a type.** -/
def same : (t : FieldType) → t.Val → t.Val → Bool
  | .bool, a, b => a == b
  | .int _, a, b => decide (a = b)
  | .single, a, b => Floating.eq a b
  | .double, a, b => Floating.eq a b
  | .text, a, b => decide (a = b)
  | .list t, a, b => sameList t.same a b
  | .dict t, a, b => sameList (fun m n => decide (m.1 = n.1) && t.same m.2 n.2) a b
  | .optional _, none, none => true
  | .optional t, some a, some b => t.same a b
  | .optional _, _, _ => false
  | .value, a, b => a.eq b

/-- The equality of a type, as the equality of the keys of groups. -/
@[reducible] def keyEquality (t : FieldType) : BEq t.Val := ⟨t.same⟩

end FieldType

end Criteria
