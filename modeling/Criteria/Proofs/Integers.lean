import Mathlib.Algebra.Order.Ring.Int
import Mathlib.Tactic.Linarith
import Criteria.Numeric

/-!
# Integers of a fixed width

An integer is its bits; what it stands for determines it (`FixedInt.wrap_toInt`). As
a number it is a signed word if its type has a sign and an unsigned word if not, and
either word holds it, since no width is above 64 bits. So the number orders as the
integer does (`FixedInt.lt_toNumber`) and gives it back (`FixedInt.ofNumber_toNumber`).
-/

namespace Criteria

theorem Width.bits_le (w : Width) : w.bits ≤ 64 := by cases w <;> decide

namespace FixedInt

variable {t : IntType}

/-- **An integer is what it stands for.** -/
theorem wrap_toInt (x : FixedInt t) : wrap t x.toInt = x := by
  unfold wrap toInt
  cases t.hasSign with
  | true => exact congrArg mk BitVec.ofInt_toInt
  | false =>
    refine congrArg mk ?_
    show BitVec.ofInt _ (x.bits.toNat : ℤ) = x.bits
    rw [BitVec.ofInt_natCast, BitVec.ofNat_toNat, BitVec.setWidth_eq]

theorem toInt_injective : Function.Injective (toInt : FixedInt t → ℤ) := fun x y h => by
  rw [← wrap_toInt x, h, wrap_toInt]

/-- A word stands for the natural number that it was made from. -/
theorem toInt_wrap_word {n : ℕ} (h : n < 2 ^ 64) : (wrap ⟨false, .w64⟩ n).toInt = n := by
  show ((BitVec.ofInt 64 (n : ℤ)).toNat : ℤ) = n
  rw [BitVec.ofInt_natCast, BitVec.toNat_ofNat, Nat.mod_eq_of_lt h]

/-- With a sign, an integer is in the range of signed words. -/
theorem toInt_mem_of_sign (h : t.hasSign = true) (x : FixedInt t) :
    -2 ^ 63 ≤ x.toInt ∧ x.toInt < 2 ^ 63 := by
  have hint : x.toInt = x.bits.toInt := if_pos h
  have hpow : (2 : ℤ) ^ (t.width.bits - 1) ≤ 2 ^ 63 :=
    pow_le_pow_right₀ one_le_two (by have := t.width.bits_le; omega)
  have hlower := BitVec.le_toInt x.bits
  have hupper := BitVec.toInt_lt (x := x.bits)
  rw [hint]
  exact ⟨by linarith, by linarith⟩

/-- Without a sign, an integer is in the range of unsigned words. -/
theorem toInt_mem_of_noSign (h : t.hasSign = false) (x : FixedInt t) :
    0 ≤ x.toInt ∧ x.toInt.toNat < 2 ^ 64 := by
  have hint : x.toInt = (x.bits.toNat : ℤ) := if_neg (by rw [h]; exact Bool.false_ne_true)
  have hpow : 2 ^ t.width.bits ≤ 2 ^ 64 := Nat.pow_le_pow_right two_pos t.width.bits_le
  rw [hint, Int.toNat_natCast]
  exact ⟨Int.natCast_nonneg _, x.bits.isLt.trans_le hpow⟩

/-- With a sign, an integer is a signed word. -/
theorem toNumber_of_sign (h : t.hasSign = true) (x : FixedInt t) :
    ∃ n : Int64, x.toNumber = .int n ∧ n.toInt = x.toInt := by
  refine ⟨.ofInt x.toInt, if_pos h, ?_⟩
  exact Int64.toInt_ofInt_of_le (toInt_mem_of_sign h x).1 (toInt_mem_of_sign h x).2

/-- Without a sign, an integer is an unsigned word. -/
theorem toNumber_of_noSign (h : t.hasSign = false) (x : FixedInt t) :
    ∃ n : UInt64, x.toNumber = .uint n ∧ (n.toNat : ℤ) = x.toInt := by
  obtain ⟨hlower, hupper⟩ := toInt_mem_of_noSign h x
  refine ⟨.ofNat x.toInt.toNat, if_neg (by rw [h]; exact Bool.false_ne_true), ?_⟩
  rw [UInt64.toNat_ofNat_of_lt' hupper, Int.toNat_of_nonneg hlower]

/-- As a number, an integer rounds as it does. -/
theorem toFloating_toNumber (f : Format) (x : FixedInt t) :
    x.toNumber.toFloating f = .ofInt f x.toInt := by
  cases h : t.hasSign with
  | true =>
    obtain ⟨n, hn, hxn⟩ := toNumber_of_sign h x
    rw [hn, ← hxn]
    rfl
  | false =>
    obtain ⟨n, hn, hxn⟩ := toNumber_of_noSign h x
    rw [hn, ← hxn]
    rfl

theorem isInteger_toNumber (x : FixedInt t) : x.toNumber.isInteger = true := by
  unfold toNumber
  split <;> rfl

/-- **As numbers, integers are ordered as they are.** -/
theorem lt_toNumber (x y : FixedInt t) : x.toNumber.lt y.toNumber = x.lt y := by
  unfold lt
  cases h : t.hasSign with
  | true =>
    obtain ⟨m, hm, hxm⟩ := toNumber_of_sign h x
    obtain ⟨n, hn, hyn⟩ := toNumber_of_sign h y
    rw [hm, hn, ← hxm, ← hyn]
    exact decide_eq_decide.mpr Int64.lt_iff_toInt_lt
  | false =>
    obtain ⟨m, hm, hxm⟩ := toNumber_of_noSign h x
    obtain ⟨n, hn, hyn⟩ := toNumber_of_noSign h y
    rw [hm, hn, ← hxm, ← hyn]
    exact decide_eq_decide.mpr (UInt64.lt_iff_toNat_lt.trans Int.ofNat_lt.symm)

/-- **A number gives back the integer** it was made from. -/
theorem ofNumber_toNumber (x : FixedInt t) : ofNumber t x.toNumber = x := by
  cases h : t.hasSign with
  | true =>
    obtain ⟨n, hn, hxn⟩ := toNumber_of_sign h x
    rw [hn]
    show wrap t n.toInt = x
    rw [hxn, wrap_toInt]
  | false =>
    obtain ⟨n, hn, hxn⟩ := toNumber_of_noSign h x
    rw [hn]
    show wrap t (n.toNat : ℤ) = x
    rw [hxn, wrap_toInt]

/-- As numbers, integers are equal as they are. -/
theorem eq_toNumber (x y : FixedInt t) : x.toNumber.eq y.toNumber = decide (x = y) := by
  rw [Bool.eq_iff_iff, decide_eq_true_iff, ← toInt_injective.eq_iff]
  cases h : t.hasSign with
  | true =>
    obtain ⟨m, hm, hxm⟩ := toNumber_of_sign h x
    obtain ⟨n, hn, hyn⟩ := toNumber_of_sign h y
    rw [hm, hn, ← hxm, ← hyn, Int64.toInt_inj]
    exact beq_iff_eq
  | false =>
    obtain ⟨m, hm, hxm⟩ := toNumber_of_noSign h x
    obtain ⟨n, hn, hyn⟩ := toNumber_of_noSign h y
    rw [hm, hn, ← hxm, ← hyn, Int.natCast_inj, UInt64.toNat_inj]
    exact beq_iff_eq

/-! ## Sums -/

/-- Wrapping in a word first changes nothing. -/
theorem wrap_bmod (n : ℤ) : wrap t (n.bmod (2 ^ 64)) = wrap t n := by
  refine congrArg mk (BitVec.eq_of_toInt_eq ?_)
  rw [BitVec.toInt_ofInt, BitVec.toInt_ofInt,
    Int.bmod_bmod_of_dvd (Nat.pow_dvd_pow 2 t.width.bits_le)]

/-- Wrapping a sum is adding with wrapping. -/
theorem wrap_add (m n : ℤ) : wrap t (m + n) = (wrap t m).add (wrap t n) :=
  congrArg mk (BitVec.ofInt_add m n)

/-- The signed word of an integer wraps to it. -/
theorem wrap_signed (x : FixedInt t) : wrap t x.toNumber.signed.toInt = x := by
  cases h : t.hasSign with
  | true =>
    obtain ⟨n, hn, hxn⟩ := toNumber_of_sign h x
    rw [hn]
    show wrap t n.toInt = x
    rw [hxn, wrap_toInt]
  | false =>
    obtain ⟨n, hn, hxn⟩ := toNumber_of_noSign h x
    -- above the greatest signed word the signed word is another integer, which differs
    -- from this one by a multiple of all that a word holds
    have hint : n.toInt64.toInt = (n.toNat : ℤ).bmod (2 ^ 64) :=
      BitVec.toInt_eq_toNat_bmod n.toBitVec
    rw [hn]
    show wrap t n.toInt64.toInt = x
    rw [hint, wrap_bmod, hxn, wrap_toInt]

/-- **A sum in words wraps to the sum in the type.** -/
theorem wrap_add_signed (total : Int64) (x : FixedInt t) :
    wrap t (total + x.toNumber.signed).toInt = (wrap t total.toInt).add x := by
  rw [Int64.toInt_add, wrap_bmod, wrap_add, wrap_signed]

end FixedInt

end Criteria
