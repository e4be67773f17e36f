import Mathlib.Algebra.Order.Field.Power
import Mathlib.Data.Prod.Lex
import Mathlib.Data.Rat.Cast.Order
import Mathlib.Tactic.Linarith
import Mathlib.Tactic.Positivity
import Criteria.Binary.Format

/-!
# Binary numbers as extended rationals

Two finite numbers are compared by counting them in a unit that is whole for both.
That is the order of the rational numbers that they stand for (`Binary.toRat`), and
with the infinities at the two ends it is the order of their positions on one line
(`Binary.lt_iff_position`). Numbers at one position are equal (`Binary.eq_iff_position`):
the two zeros, and apart from them a number in canonical form and itself.

Not-a-number has no place on the line, and is put behind everything to have one.
-/

namespace Criteria

namespace Binary

/-! ## Positions -/

/-- **The rational number** that a finite number stands for. -/
def toRat : Binary → ℚ
  | .finite negative m e => signed negative m * 2 ^ e
  | _ => 0

/-- The stretch of the line a number stands on: the two ends, what is between them,
and what is behind everything. -/
def stretch : Binary → ℤ
  | .nan => 2
  | .infinite negative => if negative then -1 else 1
  | _ => 0

/-- **The position of a number** on the line. -/
def position (x : Binary) : ℤ ×ₗ ℚ := toLex (x.stretch, x.toRat)

/-- Whether a finite nonzero number is in canonical form; the others are. -/
def Canonical : Binary → Prop
  | .finite _ m _ => m % 2 = 1
  | _ => True

/-- A power counted from zero up is a power. -/
theorem cast_power {e : ℤ} (he : 0 ≤ e) : ((power 2 e : ℕ) : ℚ) = 2 ^ e := by
  obtain ⟨n, rfl⟩ := Int.eq_ofNat_of_zero_le he
  show ((2 ^ n : ℕ) : ℚ) = 2 ^ (n : ℤ)
  rw [Nat.cast_pow, zpow_natCast]
  rfl

theorem cast_signed (negative : Bool) (m n : ℕ) :
    ((signed negative (m * n) : ℤ) : ℚ) = signed negative m * n := by
  cases negative <;> simp [signed]

/-- **Counting in a unit** gives the number, in units. -/
theorem units_mul (x : Binary) {unit : ℤ} (h : unit ≤ x.exponent) :
    (x.units unit : ℚ) * 2 ^ unit = x.toRat := by
  cases x with
  | finite negative m e =>
    show ((signed negative (m * power 2 (e - unit)) : ℤ) : ℚ) * 2 ^ unit = signed negative m * 2 ^ e
    have he : 0 ≤ e - unit := Int.sub_nonneg.mpr h
    rw [cast_signed, cast_power he, mul_assoc, ← zpow_add₀ two_ne_zero, Int.sub_add_cancel]
  | nan => simp [units, toRat]
  | infinite negative => simp [units, toRat]
  | zero negative => simp [units, toRat]

/-- Two finite numbers compare as what they count in a common unit. -/
theorem units_lt_iff (a b : Binary) :
    a.units (commonUnit a b) < b.units (commonUnit a b) ↔ a.toRat < b.toRat := by
  rw [← units_mul a (min_le_left a.exponent b.exponent),
    ← units_mul b (min_le_right a.exponent b.exponent),
    mul_lt_mul_iff_left₀ (by positivity), Int.cast_lt]
  rfl

/-- **The order of numbers** is that of their positions. -/
theorem lt_iff_position {a b : Binary} (ha : a ≠ .nan) (hb : b ≠ .nan) :
    a.lt b = true ↔ a.position < b.position := by
  rw [position, position, Prod.Lex.toLex_lt_toLex]
  have hfinite : decide (a.units (commonUnit a b) < b.units (commonUnit a b)) = true
      ↔ (0 : ℤ) < 0 ∨ (0 : ℤ) = 0 ∧ a.toRat < b.toRat := by
    rw [decide_eq_true_iff, units_lt_iff]
    simp
  cases a with
  | nan => exact absurd rfl ha
  | infinite m =>
    cases b with
    | nan => exact absurd rfl hb
    | infinite n => cases m <;> cases n <;> simp [lt, stretch, toRat]
    | zero n => cases m <;> simp [lt, stretch]
    | finite n k e => cases m <;> simp [lt, stretch]
  | zero m =>
    cases b with
    | nan => exact absurd rfl hb
    | infinite n => cases n <;> simp [lt, stretch]
    | zero n => exact hfinite
    | finite n k e => exact hfinite
  | finite m k e =>
    cases b with
    | nan => exact absurd rfl hb
    | infinite n => cases n <;> simp [lt, stretch]
    | zero n => exact hfinite
    | finite n k' e' => exact hfinite

/-- Of two numbers at most one is less than the other, not-a-number included. -/
theorem lt_asymm {a b : Binary} (hab : a.lt b = true) : b.lt a = false := by
  have ha : a ≠ .nan := by rintro rfl; cases hab
  have hb : b ≠ .nan := by rintro rfl; cases a <;> cases hab
  rw [← Bool.not_eq_true, lt_iff_position hb ha, not_lt]
  exact ((lt_iff_position ha hb).mp hab).le

/-! ## Equality -/

/-- A canonical number other than zero stands for a number other than zero. -/
theorem toRat_finite_ne_zero {negative : Bool} {m : ℕ} {e : ℤ} (hm : m % 2 = 1) :
    (finite negative m e).toRat ≠ 0 := by
  have hm' : m ≠ 0 := fun h => by simp [h] at hm
  refine mul_ne_zero ?_ (zpow_ne_zero e two_ne_zero)
  cases negative <;> simp [signed, hm']

/-- **Odd significands are determined**: two equal products of an odd number and a
power of two have equal parts. -/
theorem odd_mul_power_inj {m n : ℕ} {d e : ℤ} (hm : m % 2 = 1) (hn : n % 2 = 1)
    (h : (m : ℚ) * 2 ^ d = n * 2 ^ e) : m = n ∧ d = e := by
  wlog hle : d ≤ e generalizing m n d e
  · obtain ⟨hmn, hde⟩ := this hn hm h.symm (Int.le_of_not_le hle)
    exact ⟨hmn.symm, hde.symm⟩
  obtain ⟨k, hk⟩ := Int.le.dest hle
  have hmn : m = n * 2 ^ k := by
    rw [← hk, zpow_add₀ two_ne_zero, mul_left_comm, mul_comm, zpow_natCast] at h
    exact_mod_cast mul_left_cancel₀ (zpow_ne_zero d two_ne_zero) h
  cases k with
  | zero =>
    rw [pow_zero, mul_one] at hmn
    exact ⟨hmn, by rw [← hk]; exact (add_zero d).symm⟩
  | succ k =>
    rw [pow_succ, ← mul_assoc, mul_comm] at hmn
    omega

theorem abs_toRat (negative : Bool) (m : ℕ) (e : ℤ) :
    |(finite negative m e).toRat| = m * 2 ^ e := by
  have hpos : (0 : ℚ) < 2 ^ e := by positivity
  show |((signed negative m : ℤ) : ℚ) * 2 ^ e| = m * 2 ^ e
  rw [abs_mul, abs_of_pos hpos]
  cases negative <;> simp [signed]

/-- A canonical number is determined by the rational number that it stands for. -/
theorem toRat_finite_inj {p q : Bool} {m n : ℕ} {d e : ℤ} (hm : m % 2 = 1) (hn : n % 2 = 1)
    (h : (finite p m d).toRat = (finite q n e).toRat) : finite p m d = finite q n e := by
  have habs := congrArg abs h
  rw [abs_toRat, abs_toRat] at habs
  obtain ⟨rfl, rfl⟩ := odd_mul_power_inj hm hn habs
  by_cases hpq : p = q
  · rw [hpq]
  · -- a number and its opposite would be equal
    have hopposite : (finite p m d).toRat = -(finite q m d).toRat := by
      cases p with
      | true =>
        cases q with
        | true => exact absurd rfl hpq
        | false => simp [toRat, signed]
      | false =>
        cases q with
        | true => simp [toRat, signed]
        | false => exact absurd rfl hpq
    have hzero : (finite q m d).toRat = 0 := by linarith
    exact absurd hzero (toRat_finite_ne_zero hm)

/-- **Numbers at one position are equal.** -/
theorem eq_iff_position {a b : Binary} (ha : a ≠ .nan) (hb : b ≠ .nan) (hca : a.Canonical)
    (hcb : b.Canonical) : a.eq b = true ↔ a.position = b.position := by
  rw [position, position, toLex_inj, Prod.mk.injEq]
  cases a with
  | nan => exact absurd rfl ha
  | infinite m =>
    cases b with
    | nan => exact absurd rfl hb
    | infinite n => cases m <;> cases n <;> simp [eq, stretch, toRat]
    | zero n => cases m <;> simp [eq, stretch]
    | finite n k e => cases m <;> simp [eq, stretch]
  | zero m =>
    cases b with
    | nan => exact absurd rfl hb
    | infinite n => cases n <;> simp [eq, stretch]
    | zero n => simp [eq, stretch, toRat]
    | finite n k e =>
      have hne : (zero m).toRat ≠ (finite n k e).toRat := (toRat_finite_ne_zero hcb).symm
      simp [eq, stretch, hne]
  | finite m k e =>
    cases b with
    | nan => exact absurd rfl hb
    | infinite n => cases n <;> simp [eq, stretch]
    | zero n =>
      have hne : (finite m k e).toRat ≠ (zero n).toRat := toRat_finite_ne_zero hca
      simp [eq, stretch, hne]
    | finite n l f =>
      show decide _ = true ↔ (0 : ℤ) = 0 ∧ _
      rw [decide_eq_true_iff]
      exact ⟨fun h => ⟨rfl, congrArg toRat h⟩, fun h => toRat_finite_inj hca hcb h.2⟩

/-- Equality is symmetric. -/
theorem eq_symm (a b : Binary) : a.eq b = b.eq a := by
  cases a <;> cases b <;> first | rfl | exact decide_eq_decide.mpr eq_comm

/-! ## Integers -/

/-- **Factors of two move to the exponent**, until an odd number is left. -/
theorem exists_dropTwos (k : ℕ) {m : ℕ} (hm : m ≠ 0) (hk : m < 2 ^ (k + 1)) (e : ℤ) :
    ∃ odd j : ℕ, dropTwos k m e = (odd, e + j) ∧ odd % 2 = 1 ∧ odd * 2 ^ j = m := by
  induction k generalizing m e with
  | zero => exact ⟨m, 0, by simp [dropTwos], by omega, by simp⟩
  | succ k ih =>
    unfold dropTwos
    split
    case isTrue heven =>
      have hhalf : m / 2 < 2 ^ (k + 1) := by
        rw [pow_succ] at hk
        omega
      obtain ⟨odd, j, hdrop, hodd, hmul⟩ := ih (m := m / 2) (by omega) hhalf (e + 1)
      refine ⟨odd, j + 1, ?_, hodd, ?_⟩
      · rw [hdrop, Nat.cast_succ, add_right_comm, add_assoc]
      · rw [pow_succ, ← mul_assoc, hmul]
        omega
    case isFalse hodd => exact ⟨m, 0, by simp, by omega, by simp⟩

/-- **An integer in canonical form.** -/
theorem exists_ofInt {n : ℤ} (hn : n ≠ 0) :
    ∃ odd j : ℕ, Binary.ofInt n = finite (decide (n < 0)) odd j ∧ odd % 2 = 1 ∧
      odd * 2 ^ j = n.natAbs := by
  have habs : n.natAbs ≠ 0 := Int.natAbs_ne_zero.mpr hn
  obtain ⟨odd, j, hdrop, hodd, hmul⟩ := exists_dropTwos n.natAbs.log2 habs Nat.lt_log2_self 0
  refine ⟨odd, j, ?_, hodd, hmul⟩
  unfold Binary.ofInt ofUnits reduced
  rw [if_neg habs, hdrop, zero_add]

/-- **The position of an integer** is the integer. -/
theorem position_ofInt (n : ℤ) : (Binary.ofInt n).position = toLex (0, (n : ℚ)) := by
  by_cases hn : n = 0
  · subst hn
    rfl
  · obtain ⟨odd, j, hform, -, hmul⟩ := exists_ofInt hn
    have hsigned : (signed (decide (n < 0)) n.natAbs : ℤ) = n := by
      unfold signed
      split
      case isTrue hneg =>
        rw [decide_eq_true_iff] at hneg
        omega
      case isFalse hpos =>
        rw [decide_eq_true_iff] at hpos
        omega
    rw [hform]
    show toLex ((0 : ℤ), (signed (decide (n < 0)) odd : ℚ) * 2 ^ (j : ℤ)) = _
    rw [zpow_natCast, show (2 : ℚ) ^ j = ((2 ^ j : ℕ) : ℚ) by push_cast; rfl, ← cast_signed, hmul,
      hsigned]

end Binary

/-! ## Numbers of a format -/

/-- Whether a format holds every number of another one. -/
def Format.Within (f g : Format) : Prop :=
  f.precision ≤ g.precision ∧ g.least ≤ f.least ∧ f.bound ≤ g.bound

theorem Format.Within.fits {f g : Format} (h : f.Within g) {x : Binary} (hx : f.Fits x) :
    g.Fits x := by
  cases x with
  | finite negative m e =>
    obtain ⟨hodd, hbits, hleast, hbound⟩ := hx
    exact ⟨hodd, hbits.trans_le h.1, h.2.1.trans hleast, hbound.trans h.2.2⟩
  | nan => trivial
  | infinite negative => trivial
  | zero negative => trivial

/-- **A format holds the integers** of as many bits as its significands have, and a power of
two more. -/
theorem Format.fits_ofInt {f : Format} (hprecision : 0 < f.precision) (hleast : f.least ≤ 0)
    (hbound : f.precision < f.bound) {n : ℤ} (hn : n.natAbs ≤ 2 ^ f.precision) :
    f.Fits (.ofInt n) := by
  by_cases hzero : n = 0
  · subst hzero
    trivial
  · obtain ⟨odd, j, hform, hodd, hmul⟩ := Binary.exists_ofInt hzero
    have hpos : odd ≠ 0 := by omega
    have hpow : 2 ^ (odd.log2 + j) ≤ 2 ^ f.precision := by
      rw [pow_add]
      exact (Nat.mul_le_mul_right _ (Nat.log2_self_le hpos)).trans (hmul.trans_le hn)
    have hlog : odd.log2 + j ≤ f.precision := (Nat.pow_le_pow_iff_right (by omega)).mp hpow
    -- an odd number of as many bits as the power of two would be the power itself
    have hbits : odd.log2 < f.precision := by
      rw [Nat.log2_lt hpos]
      have hle : odd ≤ 2 ^ f.precision :=
        (Nat.le_mul_of_pos_right odd (by positivity)).trans (hmul.trans_le hn)
      have heven : 2 ^ f.precision % 2 = 0 := by
        obtain ⟨p, hp⟩ := Nat.exists_eq_add_of_lt hprecision
        rw [hp, pow_succ]
        omega
      exact lt_of_le_of_ne hle fun heq => by omega
    rw [hform]
    exact ⟨hodd, hbits, by omega, by omega⟩

theorem Format.single_within_double : Format.single.Within .double := by
  unfold Format.Within
  decide

namespace Floating

variable {f g : Format}

/-- A stored number is in canonical form. -/
theorem canonical (x : Floating f) : x.val.Canonical := by
  obtain ⟨x, hx⟩ := x
  cases x with
  | finite negative m e => exact hx.1
  | nan => trivial
  | infinite negative => trivial
  | zero negative => trivial

/-- Conversion to a format that holds the number keeps it. -/
theorem convert_val {x : Floating f} (h : g.Fits x.val) : (x.convert g).val = x.val := by
  unfold convert round
  rw [dif_pos h]

/-- Rounding an integer to a format that holds it keeps it. -/
theorem ofInt_val {n : ℤ} (h : f.Fits (.ofInt n)) : (ofInt f n).val = .ofInt n := by
  unfold ofInt round
  rw [dif_pos h]

/-- Rounding makes no not-a-number. -/
theorem round_ne_nan {x : Binary} (h : x ≠ .nan) : (round f x).val ≠ .nan := by
  have hclamp {y : Binary} (hy : y ≠ .nan) : (clamp f y).val ≠ .nan := by
    unfold clamp
    split
    · exact hy
    · exact Binary.noConfusion
  have hreduced (negative : Bool) (m : ℕ) (e : ℤ) : Binary.reduced negative m e ≠ .nan := by
    unfold Binary.reduced
    split <;> exact Binary.noConfusion
  unfold round
  split
  · exact h
  · cases x with
    | nan => exact absurd rfl h
    | finite negative m e => exact hclamp (hreduced _ _ _)
    | infinite negative => exact hclamp h
    | zero negative => exact hclamp h

/-- An integer is rounded to a number. -/
theorem ofInt_ne_nan (n : ℤ) : (ofInt f n).val ≠ .nan := by
  refine round_ne_nan fun hnan => ?_
  have hposition := Binary.position_ofInt n
  rw [hnan, Binary.position, toLex_inj, Prod.mk.injEq] at hposition
  cases hposition.1

/-- **Widening keeps the number.** -/
theorem widen_val (x : Floating .single) : (x.convert .double).val = x.val :=
  convert_val (Format.single_within_double.fits x.fits)

end Floating

end Criteria
