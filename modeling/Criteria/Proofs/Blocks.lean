import Mathlib.Order.Interval.Finset.Nat
import Criteria.Proofs.Tiling

/-!
# Blocks of pages

A page can be read together with the block of pages that it stands in. Where the block begins
and ends is computed from three counts in words, once more and apart from where the page does:
the size of a block from two of them, by a product that stays at the largest word where it does
not fit (`saturatingProduct_toNat`), and its positions from that and from the number of the
block. Three counts of 31 bits have a product of 93 bits, but the size of a block needs only 62,
and the positions of a large page are clamped like those of any page.

So a block is one large page (`blockOf`), and it has the elements of its pages one after another
(`blockOf_eq_flatten`). Read through any page of it, a block says how many elements it has and
whether elements follow it, and the blocks up to one that reaches the end have all elements
(`Evaluator.pages_in_blocks`).
-/

namespace Criteria

/-! ## Products in words -/

/-- **The product of two words**, in natural numbers. -/
theorem saturatingProduct_toNat (a b : UInt64) :
    (saturatingProduct a b).toNat = min (a.toNat * b.toNat) (2 ^ 64 - 1) := by
  have hmax : (0 - 1 : UInt64).toNat = 2 ^ 64 - 1 := rfl
  unfold saturatingProduct
  by_cases hlarge : a ≠ 0 ∧ b > (0 - 1) / a
  · -- the product does not fit, and the test has found that out without it
    have hlt : 2 ^ 64 - 1 < a.toNat * b.toNat := by
      rw [← hmax]
      exact (div_lt_iff_toNat hlarge.1).mp hlarge.2
    rw [if_pos hlarge, hmax, min_eq_right hlt.le]
  · have hle : a.toNat * b.toNat ≤ 2 ^ 64 - 1 := by
      rw [← hmax]
      exact mul_le_of_not_div_lt hlarge
    rw [if_neg hlarge, min_eq_left hle, UInt64.toNat_mul]
    exact Nat.mod_eq_of_lt (by omega)

/-! ## Blocks of a list -/

/-- **The elements of a block** of `pages` pages. The block is a page of as many elements as
its pages have. -/
def blockOf {α : Type} (xs : List α) (number pages size : ℕ) : List α :=
  pageOf xs (number + 1) (pages * size)

/-- The positions of a block. -/
def blockPositions (number pages size : ℕ) : Finset ℕ :=
  Finset.Ico (number * (pages * size)) ((number + 1) * (pages * size))

section

variable {α : Type} (xs : List α) (number pages size : ℕ)

theorem pageOf_succ (i : ℕ) : pageOf xs (i + 1) size = (xs.drop (i * size)).take size :=
  pageOf_eq_take_drop xs (Nat.succ_pos i) size

/-- **A block has the elements of its pages**, one after another. -/
theorem blockOf_eq_flatten :
    blockOf xs number pages size
      = ((List.range pages).map fun i => pageOf xs (number * pages + i + 1) size).flatten := by
  -- they are the first pages of what the blocks before leave
  have hpage (i : ℕ) : pageOf xs (number * pages + i + 1) size
      = pageOf (xs.drop (number * (pages * size))) (i + 1) size := by
    rw [pageOf_succ, pageOf_succ, List.drop_drop, Nat.add_mul, Nat.mul_assoc]
  simp only [hpage]
  rw [flatten_pageOf, blockOf, pageOf_succ]

/-- The sizes of the pages add up to that of the block. -/
theorem sum_length_pageOf :
    ((List.range pages).map fun i => (pageOf xs (number * pages + i + 1) size).length).sum
      = (blockOf xs number pages size).length := by
  rw [blockOf_eq_flatten, List.length_flatten, List.map_map]
  rfl

/-- A block has as many elements as there are positions in it. -/
theorem length_blockOf :
    (blockOf xs number pages size).length
      = (Finset.range xs.length ∩ blockPositions number pages size).card := by
  rw [blockOf, pageOf, List.length_drop, List.length_take, Nat.add_sub_cancel, blockPositions,
    Finset.range_eq_Ico, Finset.Ico_inter_Ico, Nat.card_Ico, Nat.zero_max, min_comm]

/-- The blocks up to one that reaches the end have all elements. -/
theorem sum_length_blockOf {last : ℕ} (h : xs.length ≤ (last + 1) * (pages * size)) :
    ((List.range (last + 1)).map fun i => (blockOf xs i pages size).length).sum = xs.length := by
  have hall := congrArg List.length (flatten_pageOf xs (pages * size) (last + 1))
  rw [List.length_flatten, List.map_map, List.take_of_length_le h] at hall
  exact hall

end

/-! ## Blocks in words -/

/-- **The block that a page stands in**, counted from zero. -/
def blockNumber (page blockSize : Int32) : ℕ := (page.toInt.toNat - 1) / blockSize.toInt.toNat

variable {page size blockSize : Int32}

theorem blockNumber_toNat (hpage : 1 ≤ page.toInt) (hblock : 1 ≤ blockSize.toInt) :
    ((countWord page - 1) / countWord blockSize + 1).toNat = blockNumber page blockSize + 1 := by
  have hone : (1 : UInt64) ≤ countWord page := by
    rw [UInt64.le_iff_toNat_le, countWord_toNat hpage]
    exact Int.toNat_le_toNat hpage
  have hquotient : ((countWord page - 1) / countWord blockSize).toNat
      = blockNumber page blockSize := by
    rw [UInt64.toNat_div, UInt64.toNat_sub_of_le _ _ hone, countWord_toNat hpage,
      countWord_toNat hblock]
    rfl
  have hsmall : blockNumber page blockSize < 2 ^ 31 := by
    have hupper : page.toInt < 2 ^ 31 := page.toInt_lt
    exact (Nat.div_le_self _ _).trans_lt (by omega)
  rw [UInt64.toNat_add, hquotient]
  exact Nat.mod_eq_of_lt (show blockNumber page blockSize + 1 < 2 ^ 64 by omega)

/-- The size of a block is a word. -/
theorem blockSpan_toNat (hsize : 1 ≤ size.toInt) (hblock : 1 ≤ blockSize.toInt) :
    (saturatingProduct (countWord size) (countWord blockSize)).toNat
      = blockSize.toInt.toNat * size.toInt.toNat := by
  have hs : size.toInt < 2 ^ 31 := size.toInt_lt
  have hb : blockSize.toInt < 2 ^ 31 := blockSize.toInt_lt
  have hproduct : size.toInt.toNat * blockSize.toInt.toNat ≤ 2 ^ 31 * 2 ^ 31 :=
    Nat.mul_le_mul (by omega) (by omega)
  rw [saturatingProduct_toNat, countWord_toNat hsize, countWord_toNat hblock,
    min_eq_left (hproduct.trans (by decide)), Nat.mul_comm]

/-- The positions of a block in words, as they are computed. -/
def blockRange (total : UInt64) (page size blockSize : Int32) : UInt64 × UInt64 :=
  pageRange total ((countWord page - 1) / countWord blockSize + 1)
    (saturatingProduct (countWord size) (countWord blockSize))

/-- **Where a block begins and ends**, in natural numbers. -/
theorem blockRange_toNat (total : UInt64) (hpage : 1 ≤ page.toInt) (hsize : 1 ≤ size.toInt)
    (hblock : 1 ≤ blockSize.toInt) :
    (blockRange total page size blockSize).1.toNat = min total.toNat
        (blockNumber page blockSize * (blockSize.toInt.toNat * size.toInt.toNat)) ∧
      (blockRange total page size blockSize).2.toNat = min total.toNat
        ((blockNumber page blockSize + 1) * (blockSize.toInt.toNat * size.toInt.toNat)) := by
  -- counted from one, the number of the block does not wrap to zero
  have hnumber : (countWord page - 1) / countWord blockSize + 1 ≠ 0 := fun h => by
    have hzero := blockNumber_toNat hpage hblock
    rw [h, UInt64.toNat_zero] at hzero
    omega
  have hrange := pageRange_toNat total (saturatingProduct (countWord size) (countWord blockSize))
    hnumber
  rwa [blockNumber_toNat hpage hblock, blockSpan_toNat hsize hblock, Nat.add_sub_cancel] at hrange

section

variable {α : Type} {xs : List α}

/-- A block in words has as many elements as the block. -/
theorem blockRange_length (hlength : xs.length < 2 ^ 64) (hpage : 1 ≤ page.toInt)
    (hsize : 1 ≤ size.toInt) (hblock : 1 ≤ blockSize.toInt) :
    (blockRange (lengthWord xs) page size blockSize).2
        - (blockRange (lengthWord xs) page size blockSize).1
      = .ofNat (blockOf xs (blockNumber page blockSize) blockSize.toInt.toNat
          size.toInt.toNat).length := by
  obtain ⟨hfirst, hlast⟩ := blockRange_toNat (lengthWord xs) hpage hsize hblock
  have horder : (blockRange (lengthWord xs) page size blockSize).1
      ≤ (blockRange (lengthWord xs) page size blockSize).2 := by
    rw [UInt64.le_iff_toNat_le, hfirst, hlast]
    exact min_le_min_left _ (Nat.mul_le_mul_right _ (Nat.le_succ _))
  rw [← UInt64.ofNat_toNat (x := _ - _), UInt64.toNat_sub_of_le _ _ horder, hfirst, hlast,
    lengthWord, UInt64.toNat_ofNat_of_lt' hlength, blockOf, pageOf, List.length_drop,
    List.length_take, Nat.add_sub_cancel]
  congr 1
  omega

/-- Elements follow a block in words where they follow the block. -/
theorem blockRange_lt_iff (hlength : xs.length < 2 ^ 64) (hpage : 1 ≤ page.toInt)
    (hsize : 1 ≤ size.toInt) (hblock : 1 ≤ blockSize.toInt) :
    (blockRange (lengthWord xs) page size blockSize).2 < lengthWord xs ↔
      (blockNumber page blockSize + 1) * (blockSize.toInt.toNat * size.toInt.toNat)
        < xs.length := by
  rw [UInt64.lt_iff_toNat_lt, (blockRange_toNat _ hpage hsize hblock).2, lengthWord,
    UInt64.toNat_ofNat_of_lt' hlength, min_lt_iff]
  simp

end

/-! ## The blocks of an evaluator -/

namespace Evaluator

variable {T : Type}

/-- **A page of some entities and the block that it stands in.** -/
def blockAt (xs : List T) (page size blockSize : Int32) : PagedBlock T where
  items := pageOf xs page.toInt.toNat size.toInt.toNat
  page := page
  pageSize := size
  blockSize := blockSize
  totalInBlock := .ofNat
    (blockOf xs (blockNumber page blockSize) blockSize.toInt.toNat size.toInt.toNat).length
  hasMoreBlocks := decide
    ((blockNumber page blockSize + 1) * (blockSize.toInt.toNat * size.toInt.toNat) < xs.length)

/-- The total of a block is no more than there are entities, so it is a word. -/
theorem totalInBlock_toNat {xs : List T} (hlength : xs.length < 2 ^ 64) :
    (blockAt xs page size blockSize).totalInBlock.toNat
      = (blockOf xs (blockNumber page blockSize) blockSize.toInt.toNat
          size.toInt.toNat).length := by
  refine UInt64.toNat_ofNat_of_lt' (lt_of_le_of_lt ?_ hlength)
  exact ((List.drop_sublist _ _).trans (List.take_sublist _ _)).length_le

/-- **An accepted page and its block** are those of the result, if there is one. -/
theorem pagedBlock_of_allows {v : Evaluator T} {source : List T} (order : Option (SortOrder T))
    (words : source.length < 2 ^ 64) (hpage : 1 ≤ page.toInt)
    (hsize : Limits.Allows v.limits.maxPageSize size) (hblock : 1 ≤ blockSize.toInt) :
    v.pagedBlock source page size blockSize order
      = v.all source order >>= fun xs => .done (blockAt xs page size blockSize) := by
  have hlimit : v.limits.checkPageSize (countWord size) = .done () := by
    unfold Limits.checkPageSize
    rw [hsize.excludes]
    rfl
  unfold pagedBlock
  rw [requirePositive_of_pos _ hpage, requirePositive_of_pos _ hsize.1,
    requirePositive_of_pos _ hblock, hlimit, Run.done_bind, Run.done_bind, Run.done_bind,
    Run.done_bind]
  refine Run.bind_congr_of_ok fun xs hxs => ?_
  have hlength : xs.length < 2 ^ 64 := (length_of_select hxs).trans_lt words
  have hitems : slice xs (pageRange (lengthWord xs) (countWord page) (countWord size))
      = (blockAt xs page size blockSize).items :=
    slice_pageRange_eq_pageOf xs hlength hpage hsize.1
  have htotal : (blockRange (lengthWord xs) page size blockSize).2
        - (blockRange (lengthWord xs) page size blockSize).1
      = (blockAt xs page size blockSize).totalInBlock :=
    blockRange_length hlength hpage hsize.1 hblock
  have hmore : decide ((blockRange (lengthWord xs) page size blockSize).2 < lengthWord xs)
      = (blockAt xs page size blockSize).hasMoreBlocks :=
    decide_eq_decide.mpr (blockRange_lt_iff hlength hpage hsize.1 hblock)
  show Run.done (PagedBlock.mk _ page size blockSize
    ((blockRange (lengthWord xs) page size blockSize).2
      - (blockRange (lengthWord xs) page size blockSize).1)
    (decide ((blockRange (lengthWord xs) page size blockSize).2 < lengthWord xs))) = _
  rw [hitems, htotal, hmore]
  rfl

/-- **The pages of an evaluator are in blocks.** -/
structure Blocks (v : Evaluator T) (source : List T) (order : Option (SortOrder T)) : Prop where
  /-- Where the predicate decides the source and the order compares any two of its entities,
  there is a result. -/
  result : v.predicate.Decides source →
    (∀ o ∈ order, ∀ a ∈ source, ∀ b ∈ source, ∃ r, (o.compare a b).outcome = .ok r) →
    ∃ xs, (v.all source order).outcome = .ok xs
  /-- An accepted page is read with its block from the result. -/
  block (page size blockSize : Int32) : 1 ≤ page.toInt →
    Limits.Allows v.limits.maxPageSize size → 1 ≤ blockSize.toInt →
    v.pagedBlock source page size blockSize order
      = v.all source order >>= fun xs => .done (blockAt xs page size blockSize)
  /-- The entities are those of the page when it is read without its block. -/
  items (page size blockSize : Int32) : 1 ≤ page.toInt →
    Limits.Allows v.limits.maxPageSize size → 1 ≤ blockSize.toInt →
    (v.pagedBlock source page size blockSize order).outcome.map PagedBlock.items
      = (v.paged source page size order).outcome
  /-- The total is the number of positions of the block, which is the sum of the sizes of its
  pages. -/
  total (page size blockSize : Int32) (xs : List T) : (v.all source order).outcome = .ok xs →
    (blockAt xs page size blockSize).totalInBlock.toNat
        = (Finset.range xs.length ∩ blockPositions (blockNumber page blockSize)
            blockSize.toInt.toNat size.toInt.toNat).card ∧
      (blockAt xs page size blockSize).totalInBlock.toNat
        = ((List.range blockSize.toInt.toNat).map fun i =>
            (pageOf xs (blockNumber page blockSize * blockSize.toInt.toNat + i + 1)
              size.toInt.toNat).length).sum
  /-- There are more blocks if there are positions after the block. -/
  more (page size blockSize : Int32) (xs : List T) :
    (blockAt xs page size blockSize).hasMoreBlocks = true ↔
      (blockNumber page blockSize + 1) * (blockSize.toInt.toNat * size.toInt.toNat) < xs.length
  /-- The blocks up to one that reaches the end, each read through any page of it, have all
  entities. -/
  blocks (size blockSize : Int32) (last : ℕ) (page : ℕ → Int32) (xs : List T) :
    (v.all source order).outcome = .ok xs → Limits.Allows v.limits.maxPageSize size →
    1 ≤ blockSize.toInt →
    (∀ i ≤ last, 1 ≤ (page i).toInt ∧ blockNumber (page i) blockSize = i) →
    xs.length ≤ (last + 1) * (blockSize.toInt.toNat * size.toInt.toNat) →
    (Run.each (fun i => v.pagedBlock source (page i) size blockSize order)
        (List.range (last + 1))).outcome.map
      (fun found => (found.map fun block => block.totalInBlock.toNat).sum) = .ok xs.length

/-- **Pages are in blocks**, for all counts of 31 bits and sources whose length is a word. -/
theorem pages_in_blocks (v : Evaluator T) (source : List T) (order : Option (SortOrder T))
    (words : source.length < 2 ^ 64) : v.Blocks source order where
  result decides compares := by
    obtain ⟨xs, hxs, -⟩ := exists_all decides compares
    exact ⟨xs, hxs⟩
  block _ _ _ hpage hsize hblock := pagedBlock_of_allows order words hpage hsize hblock
  items page size blockSize hpage hsize hblock := by
    rw [pagedBlock_of_allows order words hpage hsize hblock,
      paged_of_allows order words hpage hsize, Run.outcome_map, Run.outcome_map]
    cases (v.all source order).outcome <;> rfl
  total page size blockSize xs hxs := by
    have hlength : xs.length < 2 ^ 64 := (length_of_select hxs).trans_lt words
    rw [totalInBlock_toNat hlength]
    exact ⟨length_blockOf xs _ _ _, (sum_length_pageOf xs _ _ _).symm⟩
  more page size blockSize xs := decide_eq_true_iff
  blocks size blockSize last page xs hxs hsize hblock hpages hreach := by
    have hlength : xs.length < 2 ^ 64 := (length_of_select hxs).trans_lt words
    have heach : (Run.each (fun i => v.pagedBlock source (page i) size blockSize order)
        (List.range (last + 1))).outcome
        = .ok ((List.range (last + 1)).map fun i => blockAt xs (page i) size blockSize) :=
      Run.outcome_each fun i hi => by
        have hle : i ≤ last := Nat.lt_succ_iff.mp (List.mem_range.mp hi)
        rw [pagedBlock_of_allows order words (hpages i hle).1 hsize hblock]
        exact Run.outcome_bind_ok hxs _
    have htotals : ((List.range (last + 1)).map fun i =>
          (blockAt xs (page i) size blockSize).totalInBlock.toNat)
        = (List.range (last + 1)).map fun i =>
          (blockOf xs i blockSize.toInt.toNat size.toInt.toNat).length :=
      List.map_congr_left fun i hi => by
        have hle : i ≤ last := Nat.lt_succ_iff.mp (List.mem_range.mp hi)
        rw [totalInBlock_toNat hlength, (hpages i hle).2]
    rw [heach]
    show Except.ok (((List.range (last + 1)).map fun i => blockAt xs (page i) size blockSize).map
      fun block => block.totalInBlock.toNat).sum = _
    rw [List.map_map]
    exact congrArg Except.ok
      ((congrArg List.sum htotals).trans (sum_length_blockOf xs _ _ hreach))

open Predicate (flags flagRows flags_decides)
open SortOrder (rightFirst rightFirst_totalOn)

/-- Three pairs of flags that fail a condition, in two blocks of two pages of one, of which the
first is read through its second page and the other one through its first. -/
theorem pages_in_blocks_flags :
    flagRows.length < 2 ^ 64 ∧ flags.Decides flagRows ∧
      (Run.each (fun i => (Evaluator.mk flags true ⟨1, 0⟩).pagedBlock flagRows
          (if i = 0 then 2 else 3) 1 2 (some rightFirst)) (List.range 2)).outcome.map
        (fun found => (found.map fun block => block.totalInBlock.toNat).sum) = .ok 3 := by
  have hwords : flagRows.length < 2 ^ 64 := by decide
  have hblocks := pages_in_blocks (Evaluator.mk flags true ⟨1, 0⟩) flagRows (some rightFirst) hwords
  obtain ⟨xs, hxs, hperm⟩ : ∃ xs,
      ((Evaluator.mk flags true ⟨1, 0⟩).all flagRows (some rightFirst)).outcome = .ok xs ∧
        xs.Perm (chosen flags true flagRows) :=
    exists_all flags_decides fun o ho a ha b hb => by
      cases ho
      obtain ⟨c, -, hc⟩ := rightFirst_totalOn flagRows
      exact ⟨c a b, hc a ha b hb⟩
  have hlength : xs.length = 3 := hperm.length_eq
  refine ⟨hwords, flags_decides, ?_⟩
  rw [← hlength]
  refine hblocks.blocks 1 2 1 (fun i => if i = 0 then 2 else 3) xs hxs
    ⟨by decide, .inr (by decide)⟩ (by decide) (by decide) ?_
  rw [hlength]
  decide

end Evaluator

end Criteria
