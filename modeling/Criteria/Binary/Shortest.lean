import Criteria.Text
import Criteria.Binary.Format

/-!
# The shortest decimal that reads back

A positive finite number is written with the fewest significant digits whose
decimal rounds to it again, and with the nearest such decimal where there are
two. `shortest` tries one digit, then two, and so on; at each length only the
two decimals next to the number can read back if any does, so only they are
tried. Seventeen digits always suffice for 53 bits.

How the digits are laid out in a text is not decided here: `Layout` records
those decisions and `Decimals.write` follows them.
-/

namespace Criteria

/-- **A positive decimal**, `digits · 10 ^ exponent`. -/
structure Decimals where
  /-- The significant digits, as a number without trailing zeros. -/
  digits : Nat
  /-- The power of ten of the last digit. -/
  exponent : Int
deriving DecidableEq

namespace Decimals

open Binary (power)

/-- Moves factors of ten from the digits to the exponent, as many as there are
and no more than the first argument allows. -/
def dropTens : Nat → Nat → Int → Decimals
  | 0, d, e => ⟨d, e⟩
  | k + 1, d, e => if d % 10 = 0 then dropTens k (d / 10) (e + 1) else ⟨d, e⟩

/-- The `k` with `10 ^ (k - 1) ≤ n / d < 10 ^ k`, found beside an estimate from
the lengths in bits (a bit is worth `1233 / 4096` of a decimal digit). -/
def magnitude (n d : Nat) : Int :=
  let guess := ((n.log2 : Int) - d.log2) * 1233 / 4096 - 1
  let below (k : Int) : Bool := decide (n * power 10 (-k) < d * power 10 k)
  if below guess then guess
  else if below (guess + 1) then guess + 1
  else if below (guess + 2) then guess + 2
  else guess + 3

/-- Of the two decimals of unit `10 ^ unit` next to `n / d`, the one that rounds
to the number `x`; the nearer one if both do, the even one if they are equally
near. -/
def neighbour? (f : Format) (x : Floating f) (n d : Nat) (unit : Int) : Option Nat :=
  let num := n * power 10 (-unit)
  let den := d * power 10 unit
  let low := num / den
  let hits (c : Nat) : Bool := decide (Floating.ofDecimal f false c unit = x)
  match hits low, hits (low + 1) with
  | true, true => some (Floating.roundHalfEven num den)
  | true, false => some low
  | false, true => some (low + 1)
  | false, false => none

/-- The first length, counting up from `length`, at which a neighbour reads
back; after `fuel` lengths the last one tried stands. -/
def search (f : Format) (x : Floating f) (n d : Nat) (top : Int) : Nat → Nat → Decimals
  | 0, length => ⟨n * power 10 (length - top) / (d * power 10 (top - length)), top - length⟩
  | fuel + 1, length =>
    match neighbour? f x n d (top - length) with
    | some c => ⟨c, top - length⟩
    | none => search f x n d top fuel (length + 1)

/-- **The shortest decimal** that reads back as the positive number
`significand · 2 ^ exponent` of a format. -/
def shortest (f : Format) (significand : Nat) (exponent : Int) : Decimals :=
  let n := significand * power 2 exponent
  let d := power 2 (-exponent)
  let found := search f (.ofRatio f false n d) n d (magnitude n d) f.precision 1
  dropTens found.digits.log2 found.digits found.exponent

end Decimals

/-- **How a decimal is laid out.** With its point after `n` digits, a decimal is
written out when `n` is within these bounds, and scientifically otherwise. -/
structure Layout where
  /-- The most digits before the point. -/
  mostWhole : Nat
  /-- The most zeros between the point and the first digit. -/
  mostZeros : Nat
  /-- The least number of digits of an exponent. -/
  exponentWidth : Nat

namespace Decimals

/-- As many zeros as asked for. -/
def zeros (n : Nat) : Text := ⟨List.replicate n 48⟩

/-- The exponent of a scientific form: its sign, always, and its digits. -/
def writeExponent (layout : Layout) (e : Int) : Text :=
  let digits := Text.ofNat e.natAbs
  (if e < 0 then "-" else "+") ++ zeros (layout.exponentWidth - digits.size) ++ digits

/-- **A decimal as text.** A whole number keeps `.0`; the scientific form has a
point only between two digits. -/
def write (layout : Layout) (x : Decimals) : Text :=
  let digits := Text.ofNat x.digits
  let point := x.exponent + digits.size
  let head (n : Nat) : Text := ⟨digits.bytes.take n⟩
  let tail (n : Nat) : Text := ⟨digits.bytes.drop n⟩
  if 0 ≤ x.exponent ∧ point ≤ layout.mostWhole then
    digits ++ zeros x.exponent.toNat ++ ".0"
  else if 0 < point ∧ point ≤ layout.mostWhole then
    head point.toNat ++ "." ++ tail point.toNat
  else if -(layout.mostZeros : Int) ≤ point ∧ point ≤ 0 then
    "0." ++ zeros (-point).toNat ++ digits
  else
    head 1 ++ (if digits.size = 1 then Text.empty else "." ++ tail 1)
      ++ "e" ++ writeExponent layout (point - 1)

end Decimals

end Criteria
