import Criteria.Proofs.Blocks

/-!
# Word arithmetic that never wraps

Words wrap without a notice, so that a result that is right says little about the way to it: two
wraps may make up for each other. The positions of a page and the product that stays at the
largest word are computed with a test in place of a product that might not fit, and the test is
itself made of words. Do the operations on the way need their wrapping anywhere?

To ask this of the computations themselves, they are written once more over any arithmetic of
words (`Arithmetic`), an operation of which is done in some way: for good, as the machine does it,
or with a check. With the arithmetic that wraps they are `pageRange` and `saturatingProduct`
(`rangeBy_wrapping`, `productBy_wrapping`). With the arithmetic that has a result only where the
natural numbers have it and it is a word, they have a result all the same, and it is that one
(`rangeBy_exact`, `productBy_exact`). So no product, sum, difference or quotient on the way fails
to be what it is in natural numbers, and nothing is divided by zero. The one page that has no
exact range is page zero, before which there is no page.
-/

namespace Criteria

/-! ## Two arithmetics -/

/-- **Operations on words**, done in a way `m`. -/
structure Arithmetic (m : Type → Type) where
  /-- The sum. -/
  add : UInt64 → UInt64 → m UInt64
  /-- The difference. -/
  sub : UInt64 → UInt64 → m UInt64
  /-- The product. -/
  mul : UInt64 → UInt64 → m UInt64
  /-- The quotient. -/
  div : UInt64 → UInt64 → m UInt64

/-- **The word of a natural number**, if it fits. -/
def wordOf? (n : ℕ) : Option UInt64 := if n < 2 ^ 64 then some (.ofNat n) else none

theorem wordOf?_eq_some_iff {n : ℕ} {w : UInt64} : wordOf? n = some w ↔ w.toNat = n := by
  unfold wordOf?
  split
  case isTrue h =>
    rw [Option.some.injEq, ← UInt64.toNat_inj, UInt64.toNat_ofNat_of_lt' h]
    exact eq_comm
  case isFalse h =>
    have hlt := w.toNat_lt
    exact iff_of_false nofun (by omega)

namespace Arithmetic

/-- **The arithmetic of words**, modulo `2 ^ 64`. -/
def wrapping : Arithmetic Id where
  add a b := a + b
  sub a b := a - b
  mul a b := a * b
  div a b := a / b

/-- **Exact arithmetic**: an operation has its result in natural numbers, or none if there is no
such result or no word for it. -/
def exact : Arithmetic Option where
  add a b := wordOf? (a.toNat + b.toNat)
  sub a b := if a.toNat < b.toNat then none else wordOf? (a.toNat - b.toNat)
  mul a b := wordOf? (a.toNat * b.toNat)
  div a b := if b.toNat = 0 then none else wordOf? (a.toNat / b.toNat)

section

variable {a b : UInt64}

/-- A sum is exact unless it wraps, -/
theorem exact_add (h : a.toNat + b.toNat < 2 ^ 64) : exact.add a b = some (a + b) :=
  wordOf?_eq_some_iff.mpr ((UInt64.toNat_add a b).trans (Nat.mod_eq_of_lt h))

/-- a difference unless it is negative, -/
theorem exact_sub (h : b.toNat ≤ a.toNat) : exact.sub a b = some (a - b) :=
  (if_neg h.not_gt).trans <|
    wordOf?_eq_some_iff.mpr (UInt64.toNat_sub_of_le a b (UInt64.le_iff_toNat_le.mpr h))

/-- a product unless it wraps, -/
theorem exact_mul (h : a.toNat * b.toNat < 2 ^ 64) : exact.mul a b = some (a * b) :=
  wordOf?_eq_some_iff.mpr ((UInt64.toNat_mul a b).trans (Nat.mod_eq_of_lt h))

/-- and a quotient unless zero divides. -/
theorem exact_div (h : b ≠ 0) : exact.div a b = some (a / b) :=
  (if_neg fun hzero => h (UInt64.toNat_inj.mp hzero)).trans <|
    wordOf?_eq_some_iff.mpr (UInt64.toNat_div a b)

end

end Arithmetic

/-! ## The computations over any arithmetic -/

section

variable {m : Type → Type} [Monad m] (A : Arithmetic m)

/-- **Whether a product is above a bound**, found out by division. -/
def exceedsBy (bound a b : UInt64) : m Bool :=
  if a = 0 then pure false
  else do
    let quotient ← A.div bound a
    pure (decide (b > quotient))

/-- **The positions of a page**, over any arithmetic. -/
def rangeBy (total page size : UInt64) : m (UInt64 × UInt64) := do
  let index ← A.sub page 1
  let past ← exceedsBy A total index size
  if past then pure (total, total)
  else do
    let product ← A.mul index size
    let first := min total product
    let rest ← A.sub total first
    let last ← A.add first (min size rest)
    pure (first, last)

/-- **The product that stays at the largest word**, over any arithmetic. -/
def productBy (a b : UInt64) : m UInt64 := do
  let large ← exceedsBy A 0xffffffffffffffff a b
  if large then pure 0xffffffffffffffff else A.mul a b

end

/-- The largest word is what zero wraps to. -/
theorem zero_sub_one_word : (0 - 1 : UInt64) = 0xffffffffffffffff := rfl

/-- The test, as the machine does it. -/
theorem exceedsBy_wrapping (bound a b : UInt64) :
    exceedsBy .wrapping bound a b = pure (decide (a ≠ 0 ∧ b > bound / a)) := by
  unfold exceedsBy
  by_cases ha : a = 0
  · rw [if_pos ha, decide_eq_false fun h => h.1 ha]
  · rw [if_neg ha, decide_eq_decide.mpr (and_iff_right ha)]
    rfl

/-- **As the machine does them, these are the computations.** -/
theorem rangeBy_wrapping (total page size : UInt64) :
    (rangeBy .wrapping total page size).run = pageRange total page size := by
  have hindex : Arithmetic.wrapping.sub page 1 = pure (page - 1) := rfl
  unfold rangeBy pageRange
  rw [hindex, pure_bind, exceedsBy_wrapping, pure_bind]
  by_cases hpast : page - 1 ≠ 0 ∧ size > total / (page - 1)
  · rw [if_pos hpast, if_pos (decide_eq_true hpast)]
    rfl
  · rw [if_neg hpast, if_neg (by rwa [decide_eq_true_iff])]
    rfl

theorem productBy_wrapping (a b : UInt64) :
    (productBy .wrapping a b).run = saturatingProduct a b := by
  unfold productBy saturatingProduct
  rw [exceedsBy_wrapping, pure_bind, zero_sub_one_word]
  by_cases hlarge : a ≠ 0 ∧ b > 0xffffffffffffffff / a
  · rw [if_pos hlarge, if_pos (decide_eq_true hlarge)]
    rfl
  · rw [if_neg hlarge, if_neg (by rwa [decide_eq_true_iff])]
    rfl

/-! ## The computations in exact arithmetic -/

/-- The test is exact, since it divides by zero nowhere. -/
theorem exceedsBy_exact (bound a b : UInt64) :
    exceedsBy .exact bound a b = some (decide (a ≠ 0 ∧ b > bound / a)) := by
  unfold exceedsBy
  by_cases ha : a = 0
  · rw [if_pos ha, decide_eq_false fun h => h.1 ha]
    rfl
  · rw [if_neg ha, Arithmetic.exact_div ha, decide_eq_decide.mpr (and_iff_right ha)]
    rfl

/-- **The positions of a page are exact**, from page one on. -/
theorem rangeBy_exact (total size : UInt64) {page : UInt64} (hpage : 1 ≤ page) :
    rangeBy .exact total page size = some (pageRange total page size) := by
  unfold rangeBy pageRange
  rw [Arithmetic.exact_sub (UInt64.le_iff_toNat_le.mp hpage), Option.bind_eq_bind,
    Option.bind_some, exceedsBy_exact, Option.bind_eq_bind, Option.bind_some]
  by_cases hpast : page - 1 ≠ 0 ∧ size > total / (page - 1)
  · simp only [if_pos hpast, decide_eq_true hpast]
    rfl
  · -- the test leaves a product that is at most the total, and from there on nothing is larger
    have hle := mul_le_of_not_div_lt hpast
    have htotal := total.toNat_lt
    have hfirst : (min total ((page - 1) * size)).toNat ≤ total.toNat := by
      rw [UInt64.toNat_min]
      exact min_le_left _ _
    have hrest : (total - min total ((page - 1) * size)).toNat
        = total.toNat - (min total ((page - 1) * size)).toNat :=
      UInt64.toNat_sub_of_le _ _ (UInt64.le_iff_toNat_le.mpr hfirst)
    have hlast : (min total ((page - 1) * size)).toNat
        + (min size (total - min total ((page - 1) * size))).toNat < 2 ^ 64 := by
      rw [UInt64.toNat_min (x := size), hrest]
      omega
    simp only [if_neg hpast, decide_eq_false hpast, Bool.false_eq_true, if_false,
      Arithmetic.exact_mul (hle.trans_lt htotal), Arithmetic.exact_sub hfirst,
      Arithmetic.exact_add hlast, Option.bind_some]
    rfl

/-- Before page one there is no page. -/
theorem rangeBy_exact_zero (total size : UInt64) : rangeBy .exact total 0 size = none := rfl

/-- **The product that stays at the largest word is exact**, of any words. -/
theorem productBy_exact (a b : UInt64) :
    productBy .exact a b = some (saturatingProduct a b) := by
  unfold productBy saturatingProduct
  rw [exceedsBy_exact, Option.bind_eq_bind, Option.bind_some, zero_sub_one_word]
  by_cases hlarge : a ≠ 0 ∧ b > 0xffffffffffffffff / a
  · simp only [if_pos hlarge, decide_eq_true hlarge]
    rfl
  · have hle : a.toNat * b.toNat ≤ 2 ^ 64 - 1 := mul_le_of_not_div_lt hlarge
    simp only [if_neg hlarge, decide_eq_false hlarge, Bool.false_eq_true, if_false]
    exact Arithmetic.exact_mul (by omega)

/-! ## Both together -/

/-- **A range that is right, and come by without a wrap.** -/
structure ExactRange (total page size : UInt64) : Prop where
  /-- It begins where the page does in natural numbers, clamped to the total, -/
  first : (pageRange total page size).1.toNat = min total.toNat ((page.toNat - 1) * size.toNat)
  /-- and ends where it does. -/
  last : (pageRange total page size).2.toNat = min total.toNat (page.toNat * size.toNat)
  /-- It is computed by operations on words, -/
  computed : (rangeBy .wrapping total page size).run = pageRange total page size
  /-- every one of which has its exact result. -/
  exact : rangeBy .exact total page size = some (pageRange total page size)

/-- **A product that is right, and come by without a wrap.** -/
structure ExactProduct (a b : UInt64) : Prop where
  /-- It is the product in natural numbers, clamped to the largest word. -/
  product : (saturatingProduct a b).toNat = min (a.toNat * b.toNat) (2 ^ 64 - 1)
  /-- It is computed by operations on words, -/
  computed : (productBy .wrapping a b).run = saturatingProduct a b
  /-- every one of which has its exact result. -/
  exact : productBy .exact a b = some (saturatingProduct a b)

/-- **Range arithmetic never wraps**: from page one on, and only from there, the positions of a
page are computed exactly, and so is the product that stays at the largest word. -/
theorem ranges_never_wrap (total page size a b : UInt64) :
    (1 ≤ page → ExactRange total page size) ∧
      ((rangeBy .exact total page size).isSome = true ↔ 1 ≤ page) ∧ ExactProduct a b := by
  have hzero : ¬ 1 ≤ page → page = 0 := fun h => by
    rw [UInt64.le_iff_toNat_le] at h
    exact UInt64.toNat_inj.mp (Nat.lt_one_iff.mp (not_le.mp h))
  refine ⟨fun hpage => ?_, ?_, ?_⟩
  · have hne : page ≠ 0 := by
      rintro rfl
      exact absurd hpage (by decide)
    obtain ⟨hfirst, hlast⟩ := pageRange_toNat total size hne
    exact ⟨hfirst, hlast, rangeBy_wrapping .., rangeBy_exact total size hpage⟩
  · by_cases hpage : 1 ≤ page
    · rw [rangeBy_exact total size hpage]
      exact iff_of_true rfl hpage
    · rw [hzero hpage, rangeBy_exact_zero]
      decide
  · exact ⟨saturatingProduct_toNat a b, productBy_wrapping a b, productBy_exact a b⟩

/-- The third page of half of all words each begins where no word is any more. -/
theorem ranges_never_wrap_past :
    (1 : UInt64) ≤ 3 ∧ ExactRange 0xffffffffffffffff 3 0x8000000000000000 ∧
      ExactProduct 0x8000000000000000 3 := by
  obtain ⟨hrange, -, hproduct⟩ := ranges_never_wrap 0xffffffffffffffff 3 0x8000000000000000
    0x8000000000000000 3
  exact ⟨by decide, hrange (by decide), hproduct⟩

end Criteria
