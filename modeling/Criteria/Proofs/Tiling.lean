import Criteria.Proofs.Pages
import Criteria.Proofs.Rearranging
import Criteria.Proofs.Selecting

/-!
# Pages tile the result

A page is computed from the whole list of the entities that pass, of which it has a
stretch of positions. The stretches follow one another without a gap, so the pages up to
any number are an initial part of the list (`flatten_pageOf`), and all of it once they
reach its end (`Evaluator.pages_tile`).

That a page is such a stretch needs nothing of the predicate or of the order: where the
list fails, so does the page. What is needed for there to be a list is that the predicate
has a verdict on every entity and that the order compares any two of them. The comparison
may be none of a preorder; the list still has the entities that pass, each as often as the
source has it.
-/

namespace Criteria

/-! ## The pages of a list -/

/-- The pages up to a number have the elements up to the end of the last one. -/
theorem flatten_pageOf {α : Type} (xs : List α) (size count : ℕ) :
    ((List.range count).map fun i => pageOf xs (i + 1) size).flatten
      = xs.take (count * size) := by
  induction count with
  | zero => simp
  | succ count ih =>
    rw [List.range_succ, List.map_append, List.flatten_append, ih, List.map_singleton,
      List.flatten_singleton, pageOf_eq_take_drop xs (show 0 < count + 1 from Nat.succ_pos count),
      Nat.add_sub_cancel, ← List.take_add, Nat.succ_mul]

/-- The numbers of the pages up to a last one. -/
def pagesTo (last : Int32) : List Int32 :=
  (List.range last.toInt.toNat).map fun i => .ofNat (i + 1)

/-- Up to a last page, counting in words is counting. -/
theorem toInt_pagesTo {last : Int32} {i : ℕ} (hi : i ∈ List.range last.toInt.toNat) :
    (Int32.ofNat (i + 1)).toInt = (i + 1 : ℕ) := by
  have hlast : last.toInt < 2 ^ 31 := last.toInt_lt
  have hi' := List.mem_range.mp hi
  exact Int32.toInt_ofNat_of_lt (by omega)

/-- The pages up to one that reaches the end are the list. -/
theorem flatten_pagesTo {α : Type} {xs : List α} {last size : Int32} (hsize : 0 < size.toInt)
    (hreach : xs.length ≤ last.toInt * size.toInt) :
    ((pagesTo last).map fun page => pageOf xs page.toInt.toNat size.toInt.toNat).flatten
      = xs := by
  have hcounted : (pagesTo last).map (fun page => pageOf xs page.toInt.toNat size.toInt.toNat)
      = (List.range last.toInt.toNat).map fun i => pageOf xs (i + 1) size.toInt.toNat := by
    rw [pagesTo, List.map_map]
    refine List.map_congr_left fun i hi => ?_
    show pageOf xs (Int32.ofNat (i + 1)).toInt.toNat _ = _
    rw [toInt_pagesTo hi, Int.toNat_natCast]
  have hreach' : xs.length ≤ last.toInt.toNat * size.toInt.toNat := by
    rcases Int.le_total 0 last.toInt with hpos | hneg
    · rw [← Int.toNat_mul hpos hsize.le]
      omega
    · have hle : last.toInt * size.toInt ≤ 0 := Int.mul_nonpos_of_nonpos_of_nonneg hneg hsize.le
      omega
  rw [hcounted, flatten_pageOf, List.take_of_length_le hreach']

/-- A page past the end is empty. -/
theorem pageOf_of_past {α : Type} {xs : List α} {page size : Int32} (hpage : 1 ≤ page.toInt)
    (hsize : 0 < size.toInt) (hpast : xs.length ≤ (page.toInt - 1) * size.toInt) :
    pageOf xs page.toInt.toNat size.toInt.toNat = [] := by
  have hlength : xs.length ≤ (page.toInt.toNat - 1) * size.toInt.toNat := by
    rw [show page.toInt.toNat - 1 = (page.toInt - 1).toNat by omega,
      ← Int.toNat_mul (by omega) hsize.le]
    omega
  exact List.drop_of_length_le ((List.length_take_le' _ xs).trans hlength)

/-! ## The pages of an evaluator -/

namespace Evaluator

variable {T : Type}

/-- No more entities are selected than there are. -/
theorem length_of_select {v : Evaluator T} {source : List T} {order : Option (SortOrder T)}
    {wanted : Bool} {xs : List T} (h : (v.select source order wanted).outcome = .ok xs) :
    xs.length ≤ source.length := by
  have hends : (v.select source order wanted).Ends (fun _ => True)
      (·.length ≤ source.length) := by
    refine (Run.ends_keep (v.accepts wanted) source).bind fun kept hkept => ?_
    refine (ends_arrange fun o _ a _ b _ => Run.ends_anyhow _).mono fun ys hys => ?_
    rw [hys.length_eq]
    exact hkept.length_le
  exact hends.of_ok h

/-- **An accepted page is a stretch of the result**, if there is one. -/
theorem paged_of_allows {v : Evaluator T} {source : List T} (order : Option (SortOrder T))
    (words : source.length < 2 ^ 64) {page size : Int32} (hpage : 1 ≤ page.toInt)
    (hsize : Limits.Allows v.limits.maxPageSize size) :
    v.paged source page size order
      = v.all source order >>= fun xs =>
          .done (pageOf xs page.toInt.toNat size.toInt.toNat) := by
  unfold paged
  rw [Limits.requirePage_of_allows hpage hsize, Run.done_bind]
  refine Run.bind_congr_of_ok fun xs hxs => ?_
  rw [slice_pageRange_eq_pageOf xs ((length_of_select hxs).trans_lt words) hpage hsize.1]

/-- **There are entities to page**: those that pass, each as often as in the source. -/
theorem exists_all {v : Evaluator T} {source : List T} {order : Option (SortOrder T)}
    (decides : v.predicate.Decides source)
    (compares : ∀ o ∈ order, ∀ a ∈ source, ∀ b ∈ source, ∃ r, (o.compare a b).outcome = .ok r) :
    ∃ xs, (v.all source order).outcome = .ok xs ∧
      xs.Perm (chosen v.predicate v.negate source) := by
  obtain ⟨p, negate, limits⟩ := v
  have hkeep := outcome_keep_passed decides negate limits
  have hsub : chosen p negate source ⊆ source := List.filter_sublist.subset
  have harrange : (arrange order (chosen p negate source)).Ends (fun _ => False)
      (·.Perm (chosen p negate source)) := ends_arrange fun o ho a ha b hb => by
    obtain ⟨r, hr⟩ := compares o ho a (hsub ha) b (hsub hb)
    exact Run.ends_of_ok hr trivial
  obtain ⟨xs, hxs, hperm⟩ := harrange.exists_ok
  exact ⟨xs, (Run.outcome_bind_ok hkeep _).trans hxs, hperm⟩

/-- **The pages of an evaluator tile its result.** -/
structure Tiles (v : Evaluator T) (source : List T) (order : Option (SortOrder T)) : Prop where
  /-- Where the predicate decides the source and the order compares any two of its
  entities, there is a result, and it has the entities that pass. -/
  result : v.predicate.Decides source →
    (∀ o ∈ order, ∀ a ∈ source, ∀ b ∈ source, ∃ r, (o.compare a b).outcome = .ok r) →
    ∃ xs, (v.all source order).outcome = .ok xs ∧
      xs.Perm (chosen v.predicate v.negate source)
  /-- An accepted page is a stretch of the result. -/
  page (page size : Int32) : 1 ≤ page.toInt → Limits.Allows v.limits.maxPageSize size →
    v.paged source page size order
      = v.all source order >>= fun xs => .done (pageOf xs page.toInt.toNat size.toInt.toNat)
  /-- The pages up to one that reaches the end are the result. -/
  pages (last size : Int32) (xs : List T) : (v.all source order).outcome = .ok xs →
    Limits.Allows v.limits.maxPageSize size → xs.length ≤ last.toInt * size.toInt →
    (Run.each (fun page => v.paged source page size order) (pagesTo last)).outcome.map
      List.flatten = .ok xs
  /-- A page past the end is empty. -/
  past (page size : Int32) (xs : List T) : (v.all source order).outcome = .ok xs →
    1 ≤ page.toInt → Limits.Allows v.limits.maxPageSize size →
    xs.length ≤ (page.toInt - 1) * size.toInt →
    (v.paged source page size order).outcome = .ok []
  /-- An accepted top count is that many entities from the front. -/
  top (count : Int32) : Limits.Allows v.limits.maxTopCount count →
    v.top source count order
      = v.all source order >>= fun xs => .done (xs.take count.toInt.toNat)

/-- **Pages tile the result**, and tops are its initial parts. The source is a list whose
length is a word; nothing is asked of the predicate and the order but for there to be a
result. -/
theorem pages_tile (v : Evaluator T) (source : List T) (order : Option (SortOrder T))
    (words : source.length < 2 ^ 64) : v.Tiles source order where
  result := exists_all
  page _ _ hpage hsize := paged_of_allows order words hpage hsize
  pages last size xs hxs hsize hreach := by
    have heach : (Run.each (fun page => v.paged source page size order) (pagesTo last)).outcome
        = .ok ((pagesTo last).map fun page => pageOf xs page.toInt.toNat size.toInt.toNat) :=
      Run.outcome_each fun page hmem => by
        obtain ⟨i, hi, rfl⟩ := List.mem_map.mp hmem
        have hpos : 1 ≤ (Int32.ofNat (i + 1)).toInt := by
          rw [toInt_pagesTo hi]
          omega
        rw [paged_of_allows order words hpos hsize]
        exact Run.outcome_bind_ok hxs _
    rw [heach]
    exact congrArg Except.ok (flatten_pagesTo hsize.1 hreach)
  past page size xs hxs hpage hsize hpast := by
    rw [paged_of_allows order words hpage hsize]
    refine (Run.outcome_bind_ok hxs _).trans (congrArg Except.ok ?_)
    exact pageOf_of_past hpage hsize.1 hpast
  top count hcount := by
    unfold top
    rw [Limits.requireTop_of_allows hcount, Run.done_bind, countWord_toNat hcount.1]
    rfl

open Predicate (flags flagRows flags_decides)
open SortOrder (rightFirst rightFirst_totalOn)

/-- Two pages of two hold the three pairs of flags that fail a condition. -/
theorem pages_tile_flags :
    flagRows.length < 2 ^ 64 ∧ flags.Decides flagRows ∧ Limits.Allows 2 2 ∧
      ∃ xs, ((Evaluator.mk flags true ⟨2, 0⟩).all flagRows (some rightFirst)).outcome = .ok xs ∧
        xs.Perm [(false, false), (false, true), (false, false)] ∧
        (Run.each (fun page => (Evaluator.mk flags true ⟨2, 0⟩).paged flagRows page 2
          (some rightFirst)) (pagesTo 2)).outcome.map List.flatten = .ok xs := by
  have hwords : flagRows.length < 2 ^ 64 := by decide
  have htiles := pages_tile (Evaluator.mk flags true ⟨2, 0⟩) flagRows (some rightFirst) hwords
  have htwo : Limits.Allows 2 2 := ⟨by decide, .inr (by decide)⟩
  obtain ⟨xs, hxs, hperm⟩ := htiles.result flags_decides fun o ho a ha b hb => by
    cases ho
    obtain ⟨c, -, hc⟩ := rightFirst_totalOn flagRows
    exact ⟨c a b, hc a ha b hb⟩
  have hlength : xs.length = 3 := hperm.length_eq
  refine ⟨hwords, flags_decides, htwo, xs, hxs, hperm, htiles.pages 2 2 xs hxs htwo ?_⟩
  rw [hlength]
  decide

end Evaluator

end Criteria
