/-!
# Binary numbers, exactly

The floating-point numbers of values are rational numbers of the form
`± m · 2 ^ e`, with two zeros, two infinities and one not-a-number beside them.
`Binary` carries such a number **exactly**, in one canonical form: a nonzero
finite number has an odd significand. How many bits a significand may have is no
part of the number; it is a `Format` (module `Criteria.Binary.Format`), and a
result is computed exactly here and rounded once there.

The order and the equality of numbers are those of the extended reals:
not-a-number is neither equal to nor less than anything, and the two zeros are
equal.
-/

namespace Criteria

/-- **A binary number**, exactly. -/
inductive Binary
  /-- The result of an operation that has none. -/
  | nan
  /-- An infinity. -/
  | infinite (negative : Bool)
  /-- A zero, which keeps a sign. -/
  | zero (negative : Bool)
  /-- The number `± significand · 2 ^ exponent`; the canonical form has an odd
  significand. -/
  | finite (negative : Bool) (significand : Nat) (exponent : Int)
deriving DecidableEq, Inhabited

namespace Binary

/-! ## Powers -/

/-- **The whole part of a power**: `base ^ e` from zero up, and one below. A factor
`base ^ e` of a quotient is `power base e` above the line and `power base (-e)`
below it. -/
def power (base : Nat) (e : Int) : Nat := Nat.pow base e.toNat

/-! ## Canonical form -/

/-- Moves factors of two from the significand to the exponent, as many as there
are and no more than the first argument allows. -/
def dropTwos : Nat → Nat → Int → Nat × Int
  | 0, m, e => (m, e)
  | k + 1, m, e => if m % 2 = 0 then dropTwos k (m / 2) (e + 1) else (m, e)

/-- The canonical form of `± m · 2 ^ e`. -/
def reduced (negative : Bool) (m : Nat) (e : Int) : Binary :=
  if m = 0 then .zero negative
  else
    let odd := dropTwos m.log2 m e
    .finite negative odd.1 odd.2

/-- The number `n · 2 ^ e`; zero is the positive one. -/
def ofUnits (n : Int) (e : Int) : Binary := reduced (decide (n < 0)) n.natAbs e

/-- An integer as a binary number. -/
def ofInt (n : Int) : Binary := ofUnits n 0

/-! ## Order -/

/-- The exponent of a nonzero finite number, zero for the others. -/
def exponent : Binary → Int
  | .finite _ _ e => e
  | _ => 0

/-- A magnitude with a sign. -/
def signed (negative : Bool) (m : Nat) : Int := if negative then -(m : Int) else m

/-- **How many units of `2 ^ unit` a finite number counts**, for a unit that is
no larger than the number's own. -/
def units (unit : Int) : Binary → Int
  | .finite negative m e => signed negative (m * power 2 (e - unit))
  | _ => 0

/-- The finer of the units of two numbers, in which both are whole. -/
def commonUnit (a b : Binary) : Int := min a.exponent b.exponent

/-- **The order of numbers.** Two finite numbers are counted in a unit that is
whole for both. -/
def lt : Binary → Binary → Bool
  | .nan, _ => false
  | _, .nan => false
  | .infinite m, .infinite n => m && !n
  | .infinite m, _ => m
  | _, .infinite n => !n
  | a, b => decide (a.units (commonUnit a b) < b.units (commonUnit a b))

/-- **Equality of numbers.** The form is canonical, so only the zeros need care. -/
def eq : Binary → Binary → Bool
  | .nan, _ => false
  | .zero _, .zero _ => true
  | a, b => decide (a = b)

/-- Whether a number differs from zero; not-a-number does. -/
def isNonzero : Binary → Bool
  | .zero _ => false
  | _ => true

/-! ## Exact arithmetic -/

/-- The number with the opposite sign. -/
def neg : Binary → Binary
  | .nan => .nan
  | .infinite n => .infinite !n
  | .zero n => .zero !n
  | .finite n m e => .finite (!n) m e

/-- **The exact sum.** Infinities of opposite sign have none. Opposite numbers
cancel to the positive zero, and only two negative zeros add to a negative one. -/
def add : Binary → Binary → Binary
  | .nan, _ => .nan
  | _, .nan => .nan
  | .infinite m, .infinite n => if m = n then .infinite m else .nan
  | .infinite m, _ => .infinite m
  | _, .infinite n => .infinite n
  | .zero m, .zero n => .zero (m && n)
  | .zero _, b => b
  | a, .zero _ => a
  | a, b => ofUnits (a.units (commonUnit a b) + b.units (commonUnit a b)) (commonUnit a b)

/-- The exact difference. -/
def sub (a b : Binary) : Binary := add a b.neg

/-- Whether the sign is negative; not-a-number has none. -/
def isNegative : Binary → Bool
  | .nan => false
  | .infinite n => n
  | .zero n => n
  | .finite n _ _ => n

/-- **The exact product.** Zero times an infinity has none. -/
def mul : Binary → Binary → Binary
  | .nan, _ => .nan
  | _, .nan => .nan
  | .infinite _, .zero _ => .nan
  | .zero _, .infinite _ => .nan
  | .infinite m, b => .infinite (m != b.isNegative)
  | a, .infinite n => .infinite (a.isNegative != n)
  | .zero m, b => .zero (m != b.isNegative)
  | a, .zero n => .zero (a.isNegative != n)
  | .finite m a d, .finite n b e => reduced (m != n) (a * b) (d + e)

/-- **The integer part**, toward zero; infinities and not-a-number have none. -/
def truncate? : Binary → Option Int
  | .nan => none
  | .infinite _ => none
  | .zero _ => some 0
  | .finite negative m e =>
    some (signed negative (m * power 2 e / power 2 (-e)))

end Binary

end Criteria
