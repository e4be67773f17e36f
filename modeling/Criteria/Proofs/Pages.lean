import Mathlib.Algebra.Order.Ring.Nat
import Criteria.Proofs.Sequencing
import Criteria.Remote.Table

/-!
# Pages without wrapping

The positions of a page are computed in words, with a test in place of a product
that might wrap. They are the positions that natural numbers give, clamped to the
total (`pageRange_toNat`). A query for a page names an offset and a limit in words as
well, where nothing can wrap, since a page and its size are positive counts of 31
bits; so it asks for the elements that the page has (`slice_pageRange`). Counts that are
small enough for the limits are accepted (`Limits.requirePage_of_allows`), and of such a
page every list has a stretch (`pageOf`).
-/

namespace Criteria

/-- **A test by division** in place of a product that might wrap. -/
theorem div_lt_iff_toNat {a b c : UInt64} (hb : b ≠ 0) :
    a / b < c ↔ a.toNat < b.toNat * c.toNat := by
  have hpos : 0 < b.toNat := Nat.pos_of_ne_zero fun h => hb (UInt64.toNat_inj.mp h)
  rw [UInt64.lt_iff_toNat_lt, UInt64.toNat_div, Nat.div_lt_iff_lt_mul hpos, Nat.mul_comm]

/-- Where the test finds nothing, the product is at most the bound. -/
theorem mul_le_of_not_div_lt {a bound c : UInt64} (h : ¬ (a ≠ 0 ∧ c > bound / a)) :
    a.toNat * c.toNat ≤ bound.toNat := by
  by_cases hzero : a = 0
  · rw [hzero, UInt64.toNat_zero, Nat.zero_mul]
    exact Nat.zero_le _
  · exact Nat.not_lt.mp fun hlt => h ⟨hzero, (div_lt_iff_toNat hzero).mpr hlt⟩

/-- **Where a page begins and ends**, in natural numbers. -/
theorem pageRange_toNat (total size : UInt64) {page : UInt64} (hpage : page ≠ 0) :
    (pageRange total page size).1.toNat = min total.toNat ((page.toNat - 1) * size.toNat) ∧
      (pageRange total page size).2.toNat = min total.toNat (page.toNat * size.toNat) := by
  have hpos : 0 < page.toNat := Nat.pos_of_ne_zero fun h => hpage (UInt64.toNat_inj.mp h)
  have hindex : (page - 1).toNat = page.toNat - 1 :=
    UInt64.toNat_sub_of_le page 1 (UInt64.le_iff_toNat_le.mpr hpos)
  have hmul : page.toNat * size.toNat = (page.toNat - 1) * size.toNat + size.toNat := by
    rw [← Nat.succ_mul, Nat.succ_eq_add_one, Nat.sub_add_cancel hpos]
  have htotal := total.toNat_lt
  rw [hmul, ← hindex]
  unfold pageRange
  by_cases hpast : page - 1 ≠ 0 ∧ size > total / (page - 1)
  · -- the product is above the total, so the page begins and ends there
    have hlt : total.toNat < (page - 1).toNat * size.toNat :=
      (div_lt_iff_toNat hpast.1).mp hpast.2
    rw [if_pos hpast]
    exact ⟨(min_eq_left hlt.le).symm, (min_eq_left (hlt.le.trans (Nat.le_add_right _ _))).symm⟩
  · -- the product is at most the total, so it is a word
    have hle := mul_le_of_not_div_lt hpast
    have hproduct : ((page - 1) * size).toNat = (page - 1).toNat * size.toNat := by
      rw [UInt64.toNat_mul]
      exact Nat.mod_eq_of_lt (hle.trans_lt htotal)
    have hfirst : (min total ((page - 1) * size)).toNat = (page - 1).toNat * size.toNat := by
      rw [UInt64.toNat_min, hproduct, min_eq_right hle]
    have hrest : (total - min total ((page - 1) * size)).toNat
        = total.toNat - (page - 1).toNat * size.toNat := by
      rw [UInt64.toNat_sub_of_le, hfirst]
      rw [UInt64.le_iff_toNat_le, hfirst]
      exact hle
    rw [if_neg hpast]
    refine ⟨by rw [hfirst, min_eq_right hle], ?_⟩
    show (min total ((page - 1) * size)
      + min size (total - min total ((page - 1) * size))).toNat = _
    rw [UInt64.toNat_add, UInt64.toNat_min (x := size), hfirst, hrest]
    generalize (page - 1).toNat * size.toNat = first at *
    omega

/-! ## Counts -/

/-- A count that is accepted is positive. -/
theorem pos_of_requirePositive {name : Text} {n : Int32}
    (h : (requirePositive name n).outcome = .ok ()) : 0 < n.toInt := by
  unfold requirePositive at h
  split at h
  case isTrue => cases h
  case isFalse hn =>
    rw [Int32.lt_iff_toInt_lt] at hn
    have hone : (1 : Int32).toInt = 1 := by decide
    omega

/-- A page and a size that are accepted are positive. -/
theorem pos_of_requirePage {limits : Limits} {page size : Int32}
    (h : (limits.requirePage page size).outcome = .ok ()) : 0 < page.toInt ∧ 0 < size.toInt := by
  obtain ⟨_, hpage, hrest⟩ := Run.bind_eq_ok_iff.mp h
  obtain ⟨_, hsize, -⟩ := Run.bind_eq_ok_iff.mp hrest
  exact ⟨pos_of_requirePositive hpage, pos_of_requirePositive hsize⟩

/-- A positive count is the word of its natural number. -/
theorem countWord_toNat {n : Int32} (hn : 0 < n.toInt) : (countWord n).toNat = n.toInt.toNat := by
  have hupper : n.toInt < 2 ^ 31 := n.toInt_lt
  have hmod : n.toInt % 2 ^ 64 = n.toInt := Int.emod_eq_of_lt hn.le (by omega)
  show (UInt64.ofNat (n.toInt % 2 ^ 64).toNat).toNat = _
  rw [hmod]
  exact UInt64.toNat_ofNat_of_lt' (show n.toInt.toNat < 2 ^ 64 by omega)

/-- A positive count is not the word zero. -/
theorem countWord_ne_zero {n : Int32} (hn : 0 < n.toInt) : countWord n ≠ 0 := fun h => by
  have hzero := countWord_toNat hn
  rw [h, UInt64.toNat_zero] at hzero
  omega

/-- The offset of a page does not wrap. -/
theorem offset_toNat {page size : Int32} (hpage : 0 < page.toInt) (hsize : 0 < size.toInt) :
    ((countWord page - 1) * countWord size).toNat
      = (page.toInt.toNat - 1) * size.toInt.toNat := by
  have hp : page.toInt < 2 ^ 31 := page.toInt_lt
  have hs : size.toInt < 2 ^ 31 := size.toInt_lt
  have hone : (1 : UInt64) ≤ countWord page := by
    rw [UInt64.le_iff_toNat_le, countWord_toNat hpage]
    show 1 ≤ page.toInt.toNat
    omega
  have hproduct : (page.toInt.toNat - 1) * size.toInt.toNat ≤ 2 ^ 31 * 2 ^ 31 :=
    Nat.mul_le_mul (by omega) (by omega)
  rw [UInt64.toNat_mul, UInt64.toNat_sub_of_le _ _ hone, countWord_toNat hpage,
    countWord_toNat hsize]
  exact Nat.mod_eq_of_lt (hproduct.trans_lt (by decide))

/-- **Whether a limit allows a count**: it is positive, and not above the limit if there is
one. -/
def Limits.Allows (limit : UInt64) (n : Int32) : Prop :=
  1 ≤ n.toInt ∧ (limit = 0 ∨ n.toInt.toNat ≤ limit.toNat)

theorem requirePositive_of_pos (name : Text) {n : Int32} (h : 1 ≤ n.toInt) :
    requirePositive name n = .done () := by
  unfold requirePositive
  refine if_neg fun hlt => ?_
  rw [Int32.lt_iff_toInt_lt] at hlt
  have hone : (1 : Int32).toInt = 1 := by decide
  omega

namespace Limits

theorem Allows.excludes {limit : UInt64} {n : Int32} (h : Allows limit n) :
    excludes limit (countWord n) = false := by
  unfold Limits.excludes
  cases h.2 with
  | inl hzero => rw [hzero]; rfl
  | inr hle =>
    have hnot : ¬ limit < countWord n := by
      rw [UInt64.lt_iff_toNat_lt, countWord_toNat h.1]
      omega
    rw [decide_eq_false hnot, Bool.and_false]

/-- An accepted page and its size leave no trace. -/
theorem requirePage_of_allows {limits : Limits} {page size : Int32} (hpage : 1 ≤ page.toInt)
    (hsize : Allows limits.maxPageSize size) : limits.requirePage page size = .done () := by
  unfold requirePage checkPageSize
  rw [requirePositive_of_pos _ hpage, requirePositive_of_pos _ hsize.1, hsize.excludes]
  rfl

/-- An accepted top count leaves no trace. -/
theorem requireTop_of_allows {limits : Limits} {count : Int32}
    (h : Allows limits.maxTopCount count) : limits.requireTop count = .done () := by
  unfold requireTop checkTopCount
  rw [requirePositive_of_pos _ h.1, h.excludes]
  rfl

end Limits

/-! ## Elements -/

/-- **The elements of a page**: those at the positions from `(page - 1) * size` up to
`page * size`, as far as there are any. -/
def pageOf {α : Type} (xs : List α) (page size : ℕ) : List α :=
  (xs.take (page * size)).drop ((page - 1) * size)

/-- Dropping and taking stop at the end of a list. -/
theorem drop_take_clamped {α : Type} (xs : List α) (first last : ℕ) :
    (xs.take (min xs.length last)).drop (min xs.length first)
      = (xs.take last).drop first := by
  have htake : xs.take (min xs.length last) = xs.take last := by
    rw [List.take_eq_take_iff, min_right_comm, min_self, min_comm]
  rw [htake]
  by_cases h : first ≤ xs.length
  · rw [min_eq_right h]
  · have hle : xs.length ≤ first := Nat.le_of_not_le h
    have hlength : (xs.take last).length ≤ xs.length := List.length_take_le' last xs
    rw [min_eq_left hle, List.drop_of_length_le hlength,
      List.drop_of_length_le (hlength.trans hle)]

/-- A page begins at its offset and has as many elements as its size says. -/
theorem pageOf_eq_take_drop {α : Type} (xs : List α) {page : ℕ} (hpage : 0 < page) (size : ℕ) :
    pageOf xs page size = (xs.drop ((page - 1) * size)).take size := by
  have hnext : page * size = (page - 1) * size + size := by
    rw [← Nat.succ_mul, Nat.succ_eq_add_one, Nat.sub_add_cancel hpage]
  rw [pageOf, List.drop_take, hnext, Nat.add_sub_cancel_left]

/-- **The positions in words are those of the page.** -/
theorem slice_pageRange_eq_pageOf {α : Type} (xs : List α) (hlength : xs.length < 2 ^ 64)
    {page size : Int32} (hpage : 0 < page.toInt) (hsize : 0 < size.toInt) :
    slice xs (pageRange (lengthWord xs) (countWord page) (countWord size))
      = pageOf xs page.toInt.toNat size.toInt.toNat := by
  have hword : (lengthWord xs).toNat = xs.length := UInt64.toNat_ofNat_of_lt' hlength
  obtain ⟨hfirst, hlast⟩ :=
    pageRange_toNat (lengthWord xs) (countWord size) (countWord_ne_zero hpage)
  rw [hword, countWord_toNat hpage, countWord_toNat hsize] at hfirst hlast
  show (xs.take _).drop _ = _
  rw [hfirst, hlast, drop_take_clamped]
  rfl

/-- **A page is a window**: its positions among all elements are those that its
offset and its limit leave. -/
theorem slice_pageRange {α : Type} (xs : List α) (hlength : xs.length < 2 ^ 64)
    {page size : Int32} (hpage : 0 < page.toInt) (hsize : 0 < size.toInt) :
    slice xs (pageRange (lengthWord xs) (countWord page) (countWord size))
      = Table.window (some ((countWord page - 1) * countWord size)) (some (countWord size)) xs := by
  rw [slice_pageRange_eq_pageOf xs hlength hpage hsize, pageOf_eq_take_drop xs (by omega)]
  show _ = (xs.drop ((countWord page - 1) * countWord size).toNat).take (countWord size).toNat
  rw [offset_toNat hpage hsize, countWord_toNat hsize]

end Criteria
