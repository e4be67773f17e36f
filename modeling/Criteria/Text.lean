/-!
# Text as bytes

Field names, function names, labels and the strings inside values are compared,
measured and searched byte by byte, never by code point. A `Text` is therefore
its list of bytes. Only writing a value asks whether these are UTF-8
(`Text.isUtf8`), and `Text.ofString` is the UTF-8 form of a literal.

The order of texts (`Text.lt`) is lexicographic on unsigned bytes. White space
and letter case are those of ASCII; bytes from 128 up are neither.
-/

namespace Criteria

/-- **A text** is the sequence of its bytes. -/
structure Text where
  /-- The bytes, first to last. -/
  bytes : List UInt8
deriving DecidableEq, Inhabited

namespace Text

/-- The UTF-8 bytes of a string of characters. -/
def ofString (s : String) : Text := ⟨s.toList.flatMap String.utf8EncodeChar⟩

instance : Coe String Text := ⟨ofString⟩

/-- The text of no bytes. -/
def empty : Text := ⟨[]⟩

/-- Whether the text has no bytes. -/
def isEmpty (t : Text) : Bool := t.bytes.isEmpty

/-- The number of bytes. -/
def size (t : Text) : Nat := t.bytes.length

/-- One text after the other. -/
def append (s t : Text) : Text := ⟨s.bytes ++ t.bytes⟩

instance : Append Text := ⟨append⟩

@[simp] theorem bytes_append (s t : Text) : (s ++ t).bytes = s.bytes ++ t.bytes := rfl

/-- The texts in order, with `separator` between neighbours. -/
def intercalate (separator : Text) : List Text → Text
  | [] => empty
  | [t] => t
  | t :: rest => t ++ separator ++ intercalate separator rest

/-- **The decimal numeral** of a natural number. -/
def ofNat (n : Nat) : Text := ⟨(Nat.toDigits 10 n).map fun c => c.val.toUInt8⟩

/-- The decimal numeral of an integer, with a leading `-` below zero. -/
def ofInt : Int → Text
  | .ofNat n => ofNat n
  | .negSucc n => "-" ++ ofNat (n + 1)

/-- **The order of texts**: lexicographic on unsigned bytes, a proper initial
part coming first. -/
def lt (s t : Text) : Bool := decide (s.bytes < t.bytes)

/-! ## UTF-8 -/

/-- A range of bytes, its ends included. -/
abbrev ByteRange := UInt8 × UInt8

/-- The bytes that a character goes on with. -/
def tailRange : ByteRange := (0x80, 0xBF)

/-- **What follows the first byte of a character**, if there is a character that begins with
it. The second byte rules out what has a shorter form, what is a surrogate and what is past
the last code point. -/
def rangesAfter (b : UInt8) : Option (List ByteRange) :=
  if b < 0x80 then some []
  else if b < 0xC2 then none
  else if b < 0xE0 then some [tailRange]
  else if b = 0xE0 then some [(0xA0, 0xBF), tailRange]
  else if b = 0xED then some [(0x80, 0x9F), tailRange]
  else if b < 0xF0 then some [tailRange, tailRange]
  else if b = 0xF0 then some [(0x90, 0xBF), tailRange, tailRange]
  else if b < 0xF4 then some [tailRange, tailRange, tailRange]
  else if b = 0xF4 then some [(0x80, 0x8F), tailRange, tailRange]
  else none

/-- Whether bytes are some that are in given ranges and then characters. -/
def isUtf8After : List ByteRange → List UInt8 → Bool
  | [], [] => true
  | _ :: _, [] => false
  | [], b :: rest =>
    match rangesAfter b with
    | none => false
    | some ranges => isUtf8After ranges rest
  | range :: ranges, b :: rest => range.1 ≤ b && b ≤ range.2 && isUtf8After ranges rest

/-- **Whether the bytes are UTF-8.** -/
def isUtf8 (t : Text) : Bool := isUtf8After [] t.bytes

/-! ## Parts of a text -/

/-- Whether `s` is `part` followed by something. -/
def startsWith (s part : Text) : Bool := part.bytes.isPrefixOf s.bytes

/-- Whether `s` is something followed by `part`. -/
def endsWith (s part : Text) : Bool := part.bytes.isSuffixOf s.bytes

/-- Whether `part` starts at some position of a list of bytes. -/
def occursIn (part : List UInt8) : List UInt8 → Bool
  | [] => part.isEmpty
  | b :: rest => part.isPrefixOf (b :: rest) || occursIn part rest

/-- Whether `part` occurs anywhere in `s`. -/
def contains (s part : Text) : Bool := occursIn part.bytes s.bytes

/-- The text up to its first zero byte, the whole text if it has none. -/
def untilZero (t : Text) : Text := ⟨t.bytes.takeWhile fun b => b != 0⟩

/-! ## Letter case and white space -/

/-- ASCII capitals become small letters, every other byte stays. -/
def lowerByte (b : UInt8) : UInt8 := if 65 ≤ b ∧ b ≤ 90 then b + 32 else b

/-- ASCII small letters become capitals, every other byte stays. -/
def upperByte (b : UInt8) : UInt8 := if 97 ≤ b ∧ b ≤ 122 then b - 32 else b

/-- The text with its ASCII capitals made small. -/
def lower (t : Text) : Text := ⟨t.bytes.map lowerByte⟩

/-- The text with its small ASCII letters made capital. -/
def upper (t : Text) : Text := ⟨t.bytes.map upperByte⟩

/-- Space, tab, line feed, vertical tab, form feed and carriage return. -/
def isSpace (b : UInt8) : Bool := b == 32 || (9 ≤ b && b ≤ 13)

/-- **The text without the white space at its two ends.** -/
def trim (t : Text) : Text :=
  ⟨((t.bytes.dropWhile isSpace).reverse.dropWhile isSpace).reverse⟩

end Text

end Criteria
