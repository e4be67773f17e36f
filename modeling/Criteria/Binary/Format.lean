import Criteria.Binary

/-!
# Formats and rounding

A `Format` says which binary numbers can be stored: how many bits a significand
may have, the exponent of the least positive number, and the power of two that
every finite magnitude stays below. `Floating f` is a number of the format `f`.

Every operation is the exact one followed by **one rounding to nearest, ties to
the even significand**. A number the format holds is not changed by rounding; a
magnitude that is too large becomes infinite. Conversion between formats is
rounding too, so widening keeps the number.

Three formats occur: `Format.single` (24 bits), `Format.double` (53 bits), which
is what values carry, and `Format.extended` (64 bits), in which averages are
computed.
-/

namespace Criteria

/-- **A binary floating-point format.** -/
structure Format where
  /-- The most bits a significand has. -/
  precision : Nat
  /-- The least positive number is `2 ^ least`. -/
  least : Int
  /-- Every finite magnitude is below `2 ^ bound`. -/
  bound : Int

namespace Format

/-- Numbers of 24 significant bits. -/
def single : Format := ⟨24, -149, 128⟩

/-- Numbers of 53 significant bits. -/
def double : Format := ⟨53, -1074, 1024⟩

/-- Numbers of 64 significant bits. -/
def extended : Format := ⟨64, -16445, 16384⟩

/-- **The numbers of a format**: zeros, infinities and not-a-number, and the
canonical finite numbers whose significand and exponent are in range. -/
def Fits (f : Format) : Binary → Prop
  | .finite _ m e =>
    m % 2 = 1 ∧ m.log2 < f.precision ∧ f.least ≤ e ∧ (m.log2 : Int) + 1 + e ≤ f.bound
  | _ => True

instance (f : Format) : DecidablePred f.Fits := fun x => by
  cases x <;> unfold Fits <;> infer_instance

end Format

/-- **A number of the format `f`.** -/
structure Floating (f : Format) where
  /-- The number, exactly. -/
  val : Binary
  /-- The format holds it. -/
  fits : f.Fits val
deriving DecidableEq

/-- The floating-point numbers of values. -/
abbrev Double := Floating .double

/-- The numbers in which averages are computed. -/
abbrev Decimal := Floating .extended

namespace Floating

open Binary (power)

variable {f g : Format}

instance : Inhabited (Floating f) := ⟨⟨.nan, trivial⟩⟩

/-- The positive zero. -/
def zero : Floating f := ⟨.zero false, trivial⟩

/-- A number as it is if the format holds it, else an infinity of its sign. -/
def clamp (f : Format) (x : Binary) : Floating f :=
  if h : f.Fits x then ⟨x, h⟩ else ⟨.infinite x.isNegative, trivial⟩

/-! ## Rounding -/

/-- The integer nearest to `n / d`, the even one of two that are equally near. -/
def roundHalfEven (n d : Nat) : Nat :=
  let q := n / d
  let r := n % d
  if 2 * r < d then q else if d < 2 * r then q + 1 else q + q % 2

/-- The `k` with `2 ^ k ≤ n / d < 2 ^ (k + 1)`, for positive `n` and `d`. -/
def floorLog2 (n d : Nat) : Int :=
  let k := (n.log2 : Int) - d.log2
  if d * power 2 k ≤ n * power 2 (-k) then k else k - 1

/-- The exponent of the last bit that the format keeps of `n / d`. -/
def lastBit (f : Format) (n d : Nat) : Int :=
  max f.least (floorLog2 n d + 1 - f.precision)

/-- **The number of the format nearest to `± n / d`**, for a positive `d`. -/
def ofRatio (f : Format) (negative : Bool) (n d : Nat) : Floating f :=
  let q := lastBit f n d
  clamp f (.reduced negative (roundHalfEven (n * power 2 (-q)) (d * power 2 q)) q)

/-- **Rounding an exact number into a format.** -/
def round (f : Format) (x : Binary) : Floating f :=
  if h : f.Fits x then ⟨x, h⟩
  else match x with
    | .finite negative m e => ofRatio f negative (m * power 2 e) (power 2 (-e))
    | x => clamp f x

/-- Rounding leaves a number of the format alone. -/
theorem round_val (x : Floating f) : round f x.val = x := by
  simp [round, x.fits]

/-- A number of one format in another. -/
def convert (g : Format) (x : Floating f) : Floating g := round g x.val

/-- The nearest number to an integer. -/
def ofInt (f : Format) (n : Int) : Floating f := round f (.ofInt n)

/-- **The nearest number to `± digits · 10 ^ exponent`.** A decimal whose first
digit stands at a power of ten beyond the format's own bounds is out of range
without being written out. -/
def ofDecimal (f : Format) (negative : Bool) (digits : Nat) (exponent : Int) : Floating f :=
  if digits = 0 then ⟨.zero negative, trivial⟩
  else if f.bound < exponent + (Nat.toDigits 10 digits).length then ⟨.infinite negative, trivial⟩
  else if exponent + (Nat.toDigits 10 digits).length < f.least then ⟨.zero negative, trivial⟩
  else ofRatio f negative (digits * power 10 exponent) (power 10 (-exponent))

/-! ## Arithmetic -/

/-- The rounded sum. -/
def add (x y : Floating f) : Floating f := round f (x.val.add y.val)

/-- The rounded difference. -/
def sub (x y : Floating f) : Floating f := round f (x.val.sub y.val)

/-- The rounded product. -/
def mul (x y : Floating f) : Floating f := round f (x.val.mul y.val)

/-- **The rounded quotient.** Zero by zero and infinity by infinity have none;
what is divided by zero otherwise is infinite. -/
def div (x y : Floating f) : Floating f :=
  let negative := x.val.isNegative != y.val.isNegative
  match x.val, y.val with
  | .nan, _ => ⟨.nan, trivial⟩
  | _, .nan => ⟨.nan, trivial⟩
  | .infinite _, .infinite _ => ⟨.nan, trivial⟩
  | .zero _, .zero _ => ⟨.nan, trivial⟩
  | .infinite _, _ => ⟨.infinite negative, trivial⟩
  | _, .infinite _ => ⟨.zero negative, trivial⟩
  | .zero _, _ => ⟨.zero negative, trivial⟩
  | _, .zero _ => ⟨.infinite negative, trivial⟩
  | .finite _ a d, .finite _ b e =>
    ofRatio f negative (a * power 2 (d - e)) (b * power 2 (e - d))

/-- The order of numbers. -/
def lt (x y : Floating f) : Bool := x.val.lt y.val

/-- Equality of numbers. -/
def eq (x y : Floating f) : Bool := x.val.eq y.val

/-- **The 64-bit interchange encoding**: the sign, eleven bits of exponent and
fifty-two of significand. Not-a-number is the quiet one with its sign bit set. -/
def toBits (x : Double) : UInt64 :=
  let sign : UInt64 := if x.val.isNegative then 0x8000000000000000 else 0
  match x.val with
  | .nan => 0xfff8000000000000
  | .infinite _ => sign ||| 0x7ff0000000000000
  | .zero _ => sign
  | .finite _ m e =>
    let top := (m.log2 : Int) + e
    if top < -1022 then sign ||| (m * power 2 (e + 1074)).toUInt64
    else sign ||| ((top + 1022).toNat * power 2 52 + m * power 2 (52 - m.log2)).toUInt64

end Floating

end Criteria
