import Criteria.Value

/-!
# Numeric types

A type can be reduced when it has a zero, an addition, an order and a
conversion to the wide numbers in which averages are computed (`Numeric`). Two
families of types are numeric here: integers of a fixed width, whose addition
wraps, and floating-point numbers of a format, whose addition rounds. A user's
own number type becomes numeric by an instance.
-/

namespace Criteria

/-- **What reductions need of a type.** -/
class Numeric (N : Type) where
  /-- The sum of nothing. -/
  zero : N
  /-- The sum of two. -/
  add : N → N → N
  /-- Whether the first is smaller. -/
  less : N → N → Bool
  /-- The number in which averages are computed. -/
  toDecimal : N → Decimal

/-- The widths of integers, in bits. -/
inductive Width
  | w8 | w16 | w32 | w64
deriving DecidableEq

/-- The number of bits. -/
def Width.bits : Width → Nat
  | .w8 => 8
  | .w16 => 16
  | .w32 => 32
  | .w64 => 64

/-- **A type of integers**: a width, with or without a sign. -/
structure IntType where
  /-- Whether there are negative integers. -/
  hasSign : Bool
  /-- The width. -/
  width : Width
deriving DecidableEq

/-- **An integer of a type**, as its bits. -/
structure FixedInt (t : IntType) where
  /-- The bits; with a sign they are in two's complement. -/
  bits : BitVec t.width.bits
deriving DecidableEq

namespace FixedInt

variable {t : IntType}

/-- The integer that the bits stand for. -/
def toInt (x : FixedInt t) : Int := if t.hasSign then x.bits.toInt else x.bits.toNat

/-- The integer of the type that agrees with `n` modulo a power of two. -/
def wrap (t : IntType) (n : Int) : FixedInt t := ⟨.ofInt _ n⟩

/-- The wrapped sum. -/
def add (x y : FixedInt t) : FixedInt t := ⟨x.bits + y.bits⟩

/-- The wrapped difference. -/
def sub (x y : FixedInt t) : FixedInt t := ⟨x.bits - y.bits⟩

/-- Whether the first integer is smaller. -/
def lt (x y : FixedInt t) : Bool := decide (x.toInt < y.toInt)

/-- **The integer part of a number as an integer of the type.** It is taken in a
register of 32 bits, or of 64 for the 64-bit types and the unsigned 32-bit one,
and then wrapped; the least number of the register stands for what is too large
for it. Unsigned 64-bit integers reach up to `2 ^ 64`. -/
def ofBinary (t : IntType) (x : Binary) : FixedInt t :=
  let wide := decide (t.width = .w64) || (decide (t.width = .w32) && !t.hasSign)
  let register : Int := if wide then 0x8000000000000000 else 0x80000000
  match x.truncate? with
  | none => wrap t (-register)
  | some n =>
    if decide (t.width = .w64) && !t.hasSign && decide (register ≤ n) then
      if n < 0x10000000000000000 then wrap t n else wrap t 0
    else if -register ≤ n ∧ n < register then wrap t n
    else wrap t (-register)

/-- **A number converted to the type.** -/
def ofNumber (t : IntType) : Number → FixedInt t
  | .int n => wrap t n.toInt
  | .uint n => wrap t n.toNat
  | .float x => ofBinary t x.val

/-- The integer as a number: signed with a sign, unsigned without. -/
def toNumber (x : FixedInt t) : Number :=
  if t.hasSign then .int (.ofInt x.toInt) else .uint (.ofNat x.toInt.toNat)

end FixedInt

instance (t : IntType) : Numeric (FixedInt t) where
  zero := .wrap t 0
  add := FixedInt.add
  less := FixedInt.lt
  toDecimal x := .ofInt .extended x.toInt

instance (f : Format) : Numeric (Floating f) where
  zero := .zero
  add := Floating.add
  less := Floating.lt
  toDecimal x := x.convert .extended

/-- A number in a floating-point format. -/
def Number.toFloating (f : Format) : Number → Floating f
  | .int n => .ofInt f n.toInt
  | .uint n => .ofInt f n.toNat
  | .float x => x.convert f

end Criteria
