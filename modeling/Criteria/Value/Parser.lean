import Criteria.Value

/-!
# Reading values

`Value.parse?` reads one JSON text from its bytes. A number without fraction and
exponent is an integer: a signed one if it starts with `-`, else an unsigned one.
Every other number is the floating-point number nearest to it. Of several members
of one object under one key, the last stays.

Each reader takes the bytes that are left and returns what it read together with
the bytes after it. Nesting is bounded by the number of bytes.
-/

namespace Criteria

namespace Value

/-- The bytes after leading white space. -/
def skipBlank : List UInt8 → List UInt8
  | [] => []
  | b :: rest => if b = 32 ∨ b = 9 ∨ b = 10 ∨ b = 13 then skipBlank rest else b :: rest

/-- Whether a byte is a decimal digit. -/
def isDigit (b : UInt8) : Bool := 48 ≤ b && b ≤ 57

/-- The number that digits write. -/
def digitsValue (digits : List UInt8) : Nat :=
  digits.foldl (fun n b => 10 * n + (b - 48).toNat) 0

/-- The digits after a mark such as the point, none if the mark is not there. -/
def readAfter (mark : UInt8 → Bool) : List UInt8 → List UInt8 × List UInt8
  | [] => ([], [])
  | b :: rest =>
    if mark b then (rest.takeWhile isDigit, rest.dropWhile isDigit) else ([], b :: rest)

/-- The exponent of a number, if it has one. -/
def readExponent : List UInt8 → Option Int × List UInt8
  | [] => (none, [])
  | b :: rest =>
    if b = 101 ∨ b = 69 then
      let negative := rest.head? == some 45
      let digits := if rest.head? == some 45 || rest.head? == some 43 then rest.tail else rest
      let n : Int := digitsValue (digits.takeWhile isDigit)
      (some (if negative then -n else n), digits.dropWhile isDigit)
    else (none, b :: rest)

/-- **A number**, with the bytes after it. -/
def readNumber (bytes : List UInt8) : Option (Number × List UInt8) :=
  let negative := bytes.head? == some 45
  let unsigned := if negative then bytes.tail else bytes
  let whole := unsigned.takeWhile isDigit
  let (fraction, afterFraction) := readAfter (· == 46) (unsigned.dropWhile isDigit)
  let (exponent, rest) := readExponent afterFraction
  if whole.isEmpty then none
  else if fraction.isEmpty && exponent.isNone then
    let n := digitsValue whole
    some (if negative then .int (.ofInt (-(n : Int))) else .uint (.ofNat n), rest)
  else
    some (.float (.ofDecimal .double negative (digitsValue (whole ++ fraction))
      (exponent.getD 0 - fraction.length)), rest)

/-- The value of a digit of base sixteen. -/
def hexValue? (b : UInt8) : Option Nat :=
  if isDigit b then some (b - 48).toNat
  else if 97 ≤ b && b ≤ 102 then some (b - 87).toNat
  else if 65 ≤ b && b ≤ 70 then some (b - 55).toNat
  else none

/-- Four digits of base sixteen, and the bytes after them. -/
def readUnit : List UInt8 → Option (Nat × List UInt8)
  | a :: b :: c :: d :: rest => do
    let a ← hexValue? a
    let b ← hexValue? b
    let c ← hexValue? c
    let d ← hexValue? d
    some (((a * 16 + b) * 16 + c) * 16 + d, rest)
  | _ => none

/-- An escaped code point: one unit, or the two of a surrogate pair. -/
def readCodePoint (bytes : List UInt8) : Option (Char × List UInt8) := do
  let (high, rest) ← readUnit bytes
  if 0xd800 ≤ high ∧ high < 0xdc00 then
    match rest with
    | 92 :: 117 :: more =>
      let (low, rest) ← readUnit more
      some (.ofNat (0x10000 + (high - 0xd800) * 1024 + (low - 0xdc00)), rest)
    | _ => none
  else some (.ofNat high, rest)

/-- **The rest of a quoted string**, up to its closing quotation mark. -/
def readString : Nat → List UInt8 → Option (List UInt8 × List UInt8)
  | 0, _ => none
  | _ + 1, [] => none
  | fuel + 1, b :: rest =>
    if b = 34 then some ([], rest)
    else if b = 92 then
      match rest with
      | [] => none
      | e :: rest =>
        let plain (c : UInt8) := do
          let (t, rest) ← readString fuel rest
          some (c :: t, rest)
        if e = 98 then plain 8
        else if e = 102 then plain 12
        else if e = 110 then plain 10
        else if e = 114 then plain 13
        else if e = 116 then plain 9
        else if e = 117 then do
          let (c, rest) ← readCodePoint rest
          let (t, rest) ← readString fuel rest
          some (String.utf8EncodeChar c ++ t, rest)
        else plain e
    else do
      let (t, rest) ← readString fuel rest
      some (b :: t, rest)

/-- The rest of the bytes if they start with a word. -/
def readWord (word : Text) (bytes : List UInt8) : Option (List UInt8) :=
  if word.bytes.isPrefixOf bytes then some (bytes.drop word.size) else none

mutual

/-- **A value**, with the bytes after it. -/
def readValue : Nat → List UInt8 → Option (Value × List UInt8)
  | 0, _ => none
  | fuel + 1, bytes =>
    match skipBlank bytes with
    | [] => none
    | 34 :: rest => do
      let (t, rest) ← readString (rest.length + 1) rest
      some (.string ⟨t⟩, rest)
    | 91 :: rest =>
      match skipBlank rest with
      | 93 :: rest => some (.array [], rest)
      | rest => do
        let (xs, rest) ← readElements fuel rest
        some (.array xs, rest)
    | 123 :: rest =>
      match skipBlank rest with
      | 125 :: rest => some (.object [], rest)
      | rest => do
        let (ms, rest) ← readMembers fuel rest
        some (.ofMembers ms, rest)
    | 110 :: rest => (readWord "null" (110 :: rest)).map (.null, ·)
    | 116 :: rest => (readWord "true" (116 :: rest)).map (.bool true, ·)
    | 102 :: rest => (readWord "false" (102 :: rest)).map (.bool false, ·)
    | bytes => (readNumber bytes).map fun (n, rest) => (.number n, rest)

/-- The elements of an array, up to its closing bracket. -/
def readElements : Nat → List UInt8 → Option (List Value × List UInt8)
  | 0, _ => none
  | fuel + 1, bytes => do
    let (x, rest) ← readValue fuel bytes
    match skipBlank rest with
    | 93 :: rest => some ([x], rest)
    | 44 :: rest =>
      let (xs, rest) ← readElements fuel rest
      some (x :: xs, rest)
    | _ => none

/-- The members of an object, up to its closing brace. -/
def readMembers : Nat → List UInt8 → Option (List (Text × Value) × List UInt8)
  | 0, _ => none
  | fuel + 1, bytes => do
    match skipBlank bytes with
    | 34 :: rest =>
      let (k, rest) ← readString (rest.length + 1) rest
      match skipBlank rest with
      | 58 :: rest =>
        let (x, rest) ← readValue fuel rest
        match skipBlank rest with
        | 125 :: rest => some ([(⟨k⟩, x)], rest)
        | 44 :: rest =>
          let (ms, rest) ← readMembers fuel rest
          some ((⟨k⟩, x) :: ms, rest)
        | _ => none
      | _ => none
    | _ => none

end

/-- **The value that a text writes**, if it writes one and nothing else. -/
def parse? (t : Text) : Option Value := do
  let (v, rest) ← readValue (2 * t.size + 2) t.bytes
  if (skipBlank rest).isEmpty then some v else none

end Value

end Criteria
