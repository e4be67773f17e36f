import Criteria.Binary.Shortest
import Criteria.Fault
import Criteria.Value

/-!
# The text of a value

`Value.dump` writes a value compactly: no white space, the members of an object
in the order of their keys, integers in decimal and floating-point numbers with
the shortest digits that read back. In a string the quotation mark, the reverse
solidus and the bytes below 32 are escaped, and nothing else is. A value with a
string that is not UTF-8, or a key, has no text.
-/

namespace Criteria

namespace Text

/-- A digit of base sixteen, small letters from ten up. -/
def hexDigit (n : UInt8) : UInt8 := if n < 10 then 48 + n else 87 + n

/-- A byte inside a quoted string. -/
def escapeByte (b : UInt8) : List UInt8 :=
  if b = 34 then [92, 34]
  else if b = 92 then [92, 92]
  else if b = 8 then [92, 98]
  else if b = 9 then [92, 116]
  else if b = 10 then [92, 110]
  else if b = 12 then [92, 102]
  else if b = 13 then [92, 114]
  else if b < 32 then [92, 117, 48, 48, hexDigit (b / 16), hexDigit (b % 16)]
  else [b]

/-- **The quoted form of a string.** -/
def quote (t : Text) : Text := ⟨34 :: t.bytes.flatMap escapeByte ++ [34]⟩

end Text

namespace Number

/-- Floating-point numbers are written out with up to fifteen digits before the
point or three zeros after it, and scientifically beyond, the exponent with at
least two digits. -/
def layout : Layout := ⟨15, 3, 2⟩

/-- **The text of a floating-point number.** Infinities and not-a-number have no
form of their own and are written as null. -/
def dumpDouble (x : Double) : Text :=
  match x.val with
  | .nan => "null"
  | .infinite _ => "null"
  | .zero negative => if negative then "-0.0" else "0.0"
  | .finite negative m e =>
    (if negative then "-" else "") ++ (Decimals.shortest .double m e).write layout

/-- The text of a number. -/
def dump : Number → Text
  | .int n => .ofInt n.toInt
  | .uint n => .ofNat n.toNat
  | .float x => dumpDouble x

end Number

namespace Value

/-! ## Encoding -/

mutual

/-- **Whether all strings in a value are UTF-8**, keys included. -/
def isUtf8 : Value → Bool
  | .string t => t.isUtf8
  | .array xs => allUtf8 xs
  | .object ms => membersUtf8 ms
  | _ => true

/-- Whether all strings in some values are UTF-8. -/
def allUtf8 : List Value → Bool
  | [] => true
  | x :: xs => isUtf8 x && allUtf8 xs

/-- Whether all strings in some members are UTF-8. -/
def membersUtf8 : List (Text × Value) → Bool
  | [] => true
  | (k, x) :: ms => k.isUtf8 && isUtf8 x && membersUtf8 ms

end

/-! ## Text -/

mutual

/-- The text of a value, whatever its strings are. -/
def write : Value → Text
  | .null => "null"
  | .bool b => if b then "true" else "false"
  | .number n => n.dump
  | .string t => t.quote
  | .array xs => "[" ++ .intercalate "," (writeElements xs) ++ "]"
  | .object ms => "\x7b" ++ .intercalate "," (writeMembers ms) ++ "\x7d"

/-- The texts of the elements of an array. -/
def writeElements : List Value → List Text
  | [] => []
  | x :: xs => write x :: writeElements xs

/-- The texts of the members of an object. -/
def writeMembers : List (Text × Value) → List Text
  | [] => []
  | (k, x) :: ms => (k.quote ++ ":" ++ write x) :: writeMembers ms

end

/-- **The text of a value**, of which nothing is left if a string in it is not UTF-8. -/
def dump (v : Value) : Except Fault Text :=
  if v.isUtf8 then .ok v.write else .error (.value .encoding)

end Value

end Criteria
