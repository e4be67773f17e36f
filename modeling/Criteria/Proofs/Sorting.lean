import Criteria.Proofs.Sequencing
import Criteria.StableSort

/-!
# Sorting gives the stable arrangement

Chunks, rounds of merging, merging from the back: the order of the comparisons is
part of what sorting means when a comparison can fail. When none does, all of it is
one function, the stable sort of the library (`outcome_sort`).

The detour is a description that determines its list. An arrangement of a list
(`Arranges`) has the same elements, each ahead of those that it may stand ahead of,
and *of the elements tied with a given one it has those of the list, in the order of
the list*. There is one such arrangement only (`Arranges.unique`), it is kept by
merging (`Arranges.merge`), and reading it backwards arranges the reversed list by
the opposite comparison (`Arranges.opposite`) – which is what insertion and merging
from the back rely on.
-/

namespace Criteria

namespace StableSort

open Std (TransCmp OrientedCmp ReflCmp)

variable {T : Type} {c : T → T → Ordering}

/-- Whether neither of two elements comes before the other. -/
def tied (c : T → T → Ordering) (a b : T) : Bool := c a b == .eq

/-- Whether the first of two elements may stand ahead of the second. -/
def ahead (c : T → T → Ordering) (a b : T) : Bool := (c a b).isLE

/-! ## Arrangements -/

/-- **A stable arrangement of a list.** -/
structure Arranges (c : T → T → Ordering) (xs s : List T) : Prop where
  /-- It has the elements of the list. -/
  perm : s.Perm xs
  /-- They are in order. -/
  sorted : s.Pairwise fun a b => ahead c a b = true
  /-- Tied elements are as they were in the list. -/
  stable : ∀ a, s.filter (tied c a) = xs.filter (tied c a)

section

variable [TransCmp c]

theorem ahead_trans (a b d : T) (hab : ahead c a b = true) (hbd : ahead c b d = true) :
    ahead c a d = true :=
  TransCmp.isLE_trans hab hbd

theorem ahead_total (a b : T) : (ahead c a b || ahead c b a) = true := by
  have hswap : c b a = (c a b).swap := OrientedCmp.eq_swap
  unfold ahead
  rw [hswap]
  cases c a b <;> rfl

/-- An element may stand ahead of another one unless that comes before it. -/
theorem ahead_eq_not_lt (a b : T) : ahead c a b = !(c b a == .lt) := by
  have hswap : c b a = (c a b).swap := OrientedCmp.eq_swap
  unfold ahead
  rw [hswap]
  cases c a b <;> rfl

theorem tied_self (a : T) : tied c a a = true := beq_iff_eq.mpr ReflCmp.compare_self

/-- **A list has one stable arrangement.** -/
theorem Arranges.unique {xs s t : List T} (hs : Arranges c xs s) (ht : Arranges c xs t) :
    s = t := by
  have hperm : s.Perm t := hs.perm.trans ht.perm.symm
  have hstable : ∀ a, s.filter (tied c a) = t.filter (tied c a) := fun a =>
    (hs.stable a).trans (ht.stable a).symm
  replace hs := hs.sorted
  replace ht := ht.sorted
  clear xs
  induction s generalizing t with
  | nil => exact hperm.nil_eq
  | cons a s ih =>
    cases t with
    | nil => exact hperm.eq_nil
    | cons b t =>
      obtain ⟨ha, hs'⟩ := List.pairwise_cons.mp hs
      obtain ⟨hb, ht'⟩ := List.pairwise_cons.mp ht
      -- both heads may stand ahead of each other, so they are tied
      have hab : ahead c a b = true := by
        cases List.mem_cons.mp (hperm.mem_iff.mpr List.mem_cons_self) with
        | inl h => exact h ▸ ReflCmp.isLE_rfl
        | inr h => exact ha b h
      have hba : ahead c b a = true := by
        cases List.mem_cons.mp (hperm.mem_iff.mp List.mem_cons_self) with
        | inl h => exact h ▸ ReflCmp.isLE_rfl
        | inr h => exact hb a h
      have htied : tied c a b = true := beq_iff_eq.mpr (OrientedCmp.isLE_antisymm hab hba)
      have hhead := hstable a
      rw [List.filter_cons_of_pos (tied_self a), List.filter_cons_of_pos htied] at hhead
      obtain ⟨rfl, -⟩ := List.cons.inj hhead
      refine congrArg (a :: ·) (ih ((List.perm_cons a).mp hperm) (fun d => ?_) hs' ht')
      have hd := hstable d
      rw [List.filter_cons, List.filter_cons] at hd
      cases htd : tied c d a with
      | false => simpa [htd] using hd
      | true => simpa [htd] using hd

/-- The tied elements of two merged lists are those of the first and then those of
the second. -/
theorem filter_merge (a : T) {s t : List T} (hs : s.Pairwise fun a b => ahead c a b = true)
    (ht : t.Pairwise fun a b => ahead c a b = true) :
    (s.merge t (ahead c)).filter (tied c a)
      = s.filter (tied c a) ++ t.filter (tied c a) := by
  induction s generalizing t with
  | nil => rw [List.nil_merge, List.filter_nil, List.nil_append]
  | cons x s ihs =>
    obtain ⟨hx, hs⟩ := List.pairwise_cons.mp hs
    induction t with
    | nil => rw [List.merge_right, List.filter_nil, List.append_nil]
    | cons y t iht =>
      obtain ⟨hy, ht⟩ := List.pairwise_cons.mp ht
      rw [List.cons_merge_cons]
      cases hxy : ahead c x y with
      | true =>
        rw [if_pos rfl, List.filter_cons, ihs hs (List.pairwise_cons.mpr ⟨hy, ht⟩),
          List.filter_cons (x := x)]
        split <;> rfl
      | false =>
        rw [if_neg Bool.false_ne_true, List.filter_cons, iht ht,
          List.filter_cons (x := y)]
        split
        case isFalse => rfl
        case isTrue hay =>
          -- `y` comes before all of the first list, so nothing there is tied with it
          have hnone : (x :: s).filter (tied c a) = [] := by
            refine List.filter_eq_nil_iff.mpr fun z hz haz => ?_
            have hxz : ahead c x z = true := by
              cases List.mem_cons.mp hz with
              | inl h => exact h ▸ ReflCmp.isLE_rfl
              | inr h => exact hx z h
            have hzy : c z y = .eq :=
              TransCmp.eq_trans (OrientedCmp.eq_symm (eq_of_beq haz)) (eq_of_beq hay)
            have hahead : ahead c x y = true :=
              TransCmp.isLE_trans hxz (Ordering.isLE_of_eq_eq hzy)
            rw [hxy] at hahead
            exact Bool.false_ne_true hahead
          rw [hnone]
          rfl

/-- **Merging keeps arrangements.** -/
theorem Arranges.merge {xs ys s t : List T} (hs : Arranges c xs s) (ht : Arranges c ys t) :
    Arranges c (xs ++ ys) (s.merge t (ahead c)) where
  perm := (List.merge_perm_append (ahead c)).trans (hs.perm.append ht.perm)
  sorted := List.pairwise_merge ahead_trans ahead_total s t hs.sorted ht.sorted
  stable a := by
    rw [filter_merge a hs.sorted ht.sorted, hs.stable, ht.stable, List.filter_append]

/-- **Backwards, an arrangement arranges the reversed list** by the opposite
comparison. -/
theorem Arranges.opposite {xs s : List T} (hs : Arranges c xs s) :
    Arranges (fun a b => c b a) xs.reverse s.reverse where
  perm := (List.reverse_perm s).trans (hs.perm.trans (List.reverse_perm xs).symm)
  sorted := List.pairwise_reverse.mpr hs.sorted
  stable a := by
    have htied : tied (fun a b => c b a) a = tied c a := by
      funext b
      exact Bool.eq_iff_iff.mpr (by simp only [tied, beq_iff_eq]; exact OrientedCmp.eq_comm)
    rw [htied, List.filter_reverse, List.filter_reverse, hs.stable a]

omit [TransCmp c] in
/-- **Dropping elements** of an arrangement arranges the list without them. -/
theorem Arranges.filter {xs s : List T} (hs : Arranges c xs s) (p : T → Bool) :
    Arranges c (xs.filter p) (s.filter p) where
  perm := hs.perm.filter p
  sorted := hs.sorted.filter p
  stable a := by
    have h := congrArg (List.filter p) (hs.stable a)
    rw [List.filter_filter, List.filter_filter] at h
    simpa only [List.filter_filter, Bool.and_comm] using h

/-- The library's sort arranges. -/
theorem arranges_mergeSort (xs : List T) : Arranges c xs (xs.mergeSort (ahead c)) where
  perm := List.mergeSort_perm xs (ahead c)
  sorted := List.pairwise_mergeSort ahead_trans ahead_total xs
  stable a := by
    -- the tied elements of the list are in order, so they are a part of the sorted list
    have hsorted : (xs.filter (tied c a)).Pairwise fun x y => ahead c x y = true := by
      refine List.pairwise_of_forall_mem_list fun x hx y hy => ?_
      have hax := eq_of_beq (List.mem_filter.mp hx).2
      have hay := eq_of_beq (List.mem_filter.mp hy).2
      exact Ordering.isLE_of_eq_eq (TransCmp.eq_trans (OrientedCmp.eq_symm hax) hay)
    have hsub := (List.sublist_mergeSort ahead_trans ahead_total hsorted
      List.filter_sublist).filter (tied c a)
    rw [List.filter_filter] at hsub
    simp only [Bool.and_self] at hsub
    exact (hsub.eq_of_length
      ((List.mergeSort_perm xs (ahead c)).filter (tied c a)).length_eq.symm).symm

/-- A stable arrangement is what the library's sort gives. -/
theorem Arranges.eq_mergeSort {xs s : List T} (hs : Arranges c xs s) :
    s = xs.mergeSort (ahead c) :=
  hs.unique (arranges_mergeSort xs)

/-- **Sorting commutes with dropping elements**, tied ones included. -/
theorem filter_mergeSort (p : T → Bool) (xs : List T) :
    (xs.mergeSort (ahead c)).filter p = (xs.filter p).mergeSort (ahead c) :=
  ((arranges_mergeSort xs).filter p).eq_mergeSort

/-- **Sorting in two parts** and merging is sorting. -/
theorem merge_mergeSort (xs ys : List T) :
    (xs.mergeSort (ahead c)).merge (ys.mergeSort (ahead c)) (ahead c)
      = (xs ++ ys).mergeSort (ahead c) :=
  ((arranges_mergeSort xs).merge (arranges_mergeSort ys)).eq_mergeSort

/-- Sorting from the back, by the opposite comparison, is sorting. -/
theorem mergeSort_opposite (xs : List T) :
    xs.reverse.mergeSort (ahead fun a b => c b a) = (xs.mergeSort (ahead c)).reverse :=
  (arranges_mergeSort (c := c) xs).opposite.eq_mergeSort.symm

end

/-! ## Comparisons without faults -/

/-- **A test that always decides**, by a comparison, which of two elements comes
first; the elements are those of a kind. -/
def Decides (before : T → T → Run Bool) (c : T → T → Ordering) (E : T → Prop) : Prop :=
  ∀ a b, E a → E b → (before a b).outcome = .ok (c a b == .lt)

variable {before : T → T → Run Bool} {E : T → Prop}

theorem Decides.opposite (h : Decides before c E) :
    Decides (fun a b => before b a) (fun a b => c b a) E :=
  fun a b ha hb => h b a hb ha

/-- Insertion from the back is merging with a list of one element. -/
theorem insertFromBack_eq (a : T) (bs : List T) :
    insertFromBack before a bs = merge (fun a b => before b a) [a] bs := by
  induction bs with
  | nil => rfl
  | cons b rest ih =>
    show (before a b >>= fun o => if o = true then _ else _)
      = (before a b >>= fun o => if o = true then _ else _)
    rw [ih]
    rfl

section

variable [TransCmp c]

/-- Merging is the library's merging. -/
theorem outcome_merge (h : Decides before c E) {as bs : List T} (has : ∀ a ∈ as, E a)
    (hbs : ∀ b ∈ bs, E b) : (merge before as bs).outcome = .ok (as.merge bs (ahead c)) := by
  induction as generalizing bs with
  | nil =>
    rw [List.nil_merge]
    rfl
  | cons a as iha =>
    have has' := fun x hx => has x (List.mem_cons_of_mem a hx)
    have hnext {bs : List T} (hbs : ∀ b ∈ bs, E b) := iha has' hbs
    induction bs with
    | nil =>
      show (merge before as [] >>= fun rest => Run.done (a :: rest)).outcome = _
      rw [Run.outcome_bind_ok (hnext hbs), List.merge_right, List.merge_right]
      rfl
    | cons b bs ihb =>
      show (before b a >>= fun o => if o = true
        then merge before (a :: as) bs >>= fun rest => Run.done (b :: rest)
        else merge before as (b :: bs) >>= fun rest => Run.done (a :: rest)).outcome = _
      rw [Run.outcome_bind_ok (h b a (hbs b List.mem_cons_self) (has a List.mem_cons_self)),
        List.cons_merge_cons, ahead_eq_not_lt]
      cases c b a == .lt with
      | true =>
        exact Run.outcome_bind_ok (ihb fun x hx => hbs x (List.mem_cons_of_mem b hx)) _
      | false => exact Run.outcome_bind_ok (hnext hbs) _

/-- **Merging sorted parts sorts the whole.** -/
theorem outcome_merge_mergeSort (h : Decides before c E) {xs ys : List T}
    (hxs : ∀ a ∈ xs, E a) (hys : ∀ a ∈ ys, E a) :
    (merge before (xs.mergeSort (ahead c)) (ys.mergeSort (ahead c))).outcome
      = .ok ((xs ++ ys).mergeSort (ahead c)) := by
  have hxs' : ∀ a ∈ xs.mergeSort (ahead c), E a := fun a ha => hxs a (List.mem_mergeSort.mp ha)
  have hys' : ∀ a ∈ ys.mergeSort (ahead c), E a := fun a ha => hys a (List.mem_mergeSort.mp ha)
  rw [outcome_merge h hxs' hys', merge_mergeSort]

/-- Merging from either end sorts the whole. -/
theorem outcome_mergeHalves (h : Decides before c E) {xs ys : List T} (hxs : ∀ a ∈ xs, E a)
    (hys : ∀ a ∈ ys, E a) :
    (mergeHalves before (xs.mergeSort (ahead c)) (ys.mergeSort (ahead c))).outcome
      = .ok ((xs ++ ys).mergeSort (ahead c)) := by
  unfold mergeHalves
  split
  · exact outcome_merge_mergeSort h hxs hys
  · have hback := outcome_merge_mergeSort h.opposite
      (fun a ha => hys a (List.mem_reverse.mp ha)) (fun a ha => hxs a (List.mem_reverse.mp ha))
    rw [mergeSort_opposite, mergeSort_opposite, ← List.reverse_append, mergeSort_opposite]
      at hback
    unfold mergeFromBack
    rw [Run.outcome_bind_ok hback]
    show Except.ok _ = Except.ok _
    rw [List.reverse_reverse]

/-! ## Chunks -/

/-- An element that may not stand ahead of any of a list ends up behind all of it. -/
theorem single_merge_of_behind {le : T → T → Bool} {a : T} {bs : List T}
    (h : ∀ b ∈ bs, le a b = false) : [a].merge bs le = bs ++ [a] := by
  induction bs with
  | nil => rw [List.merge_right, List.nil_append]
  | cons b bs ih =>
    rw [List.cons_merge_cons, h b List.mem_cons_self, if_neg Bool.false_ne_true,
      ih fun x hx => h x (List.mem_cons_of_mem b hx)]
    rfl

/-- **Insertion into a sorted list** is merging with a list of one element, also
when the element belongs at the start and is only compared with the first one. -/
theorem outcome_insert (h : Decides before c E) {fromBack : List T} (a : T)
    (hsorted : fromBack.Pairwise fun x y => ahead c y x = true) (hE : ∀ b ∈ fromBack, E b)
    (ha : E a) :
    (insert before fromBack a).outcome = .ok ([a].merge fromBack (ahead fun x y => c y x)) := by
  have ha' : ∀ x ∈ [a], E x := fun x hx => List.mem_singleton.mp hx ▸ ha
  have hbehind := outcome_merge h.opposite ha' hE
  unfold insert
  cases hlast : fromBack.getLast? with
  | none =>
    rw [List.getLast?_eq_none_iff.mp hlast, List.merge_right]
    rfl
  | some first =>
    obtain ⟨behind, rfl⟩ := List.getLast?_eq_some_iff.mp hlast
    have hfirst : E first := hE first (by simp)
    show (before a first >>= fun o => if o = true then Run.done (behind ++ [first] ++ [a])
      else insertFromBack before a (behind ++ [first])).outcome = _
    rw [Run.outcome_bind_ok (h a first ha hfirst)]
    cases hlt : c a first == .lt with
    | false =>
      rw [← insertFromBack_eq] at hbehind
      exact hbehind
    | true =>
      -- nothing is compared but the first one, and all others are behind that one
      refine congrArg Except.ok (single_merge_of_behind fun b hb => ?_).symm
      have hle : ahead c first b = true := by
        rw [List.pairwise_append] at hsorted
        cases List.mem_append.mp hb with
        | inl hb => exact hsorted.2.2 b hb first (List.mem_singleton.mpr rfl)
        | inr hb => exact List.mem_singleton.mp hb ▸ ReflCmp.isLE_rfl
      have hab : c a b = .lt := TransCmp.lt_of_lt_of_isLE (eq_of_beq hlt) hle
      exact (ahead_eq_not_lt (c := fun x y => c y x) a b).trans (by rw [hab]; rfl)

/-- Merging the elements one by one sorts them. -/
theorem foldr_merge (xs : List T) :
    xs.foldr (fun a s => [a].merge s (ahead c)) [] = xs.mergeSort (ahead c) := by
  induction xs with
  | nil => exact (List.mergeSort_nil).symm
  | cons a xs ih =>
    have h := merge_mergeSort (c := c) [a] xs
    rw [List.mergeSort_singleton] at h
    rw [List.foldr_cons, ih, h]
    rfl

/-- **A chunk is sorted** by inserting its elements one by one. -/
theorem outcome_sortChunk (h : Decides before c E) {chunk : List T} (hE : ∀ a ∈ chunk, E a) :
    (sortChunk before chunk).outcome = .ok (chunk.mergeSort (ahead c)) := by
  -- seen from the back, what has been inserted so far is in order and of the kind
  have hfold : (Run.fold (insert before) [] chunk).outcome
      = .ok (chunk.foldl (fun s a => [a].merge s (ahead fun x y => c y x)) []) := Run.outcome_fold
    (fun fromBack => fromBack.Pairwise (fun x y => ahead c y x = true) ∧ ∀ b ∈ fromBack, E b)
    (fun fromBack hback a ha => ⟨outcome_insert h a hback.1 hback.2 (hE a ha),
      @List.pairwise_merge T (ahead fun x y => c y x) ahead_trans ahead_total [a] fromBack
        (List.pairwise_singleton _ a) hback.1,
      fun b hb => by
        cases List.mem_merge.mp hb with
        | inl hb => exact List.mem_singleton.mp hb ▸ hE a ha
        | inr hb => exact hback.2 b hb⟩)
    ⟨.nil, fun b hb => absurd hb List.not_mem_nil⟩
  rw [List.foldl_eq_foldr_reverse, foldr_merge, mergeSort_opposite] at hfold
  unfold sortChunk
  rw [Run.outcome_bind_ok hfold]
  show Except.ok _ = Except.ok _
  rw [List.reverse_reverse]

/-- Every two neighbouring lists as one. -/
def joinPairs : List (List T) → List (List T)
  | xs :: ys :: rest => (xs ++ ys) :: joinPairs rest
  | chunks => chunks

theorem flatten_joinPairs (chunks : List (List T)) :
    (joinPairs chunks).flatten = chunks.flatten := by
  fun_induction joinPairs chunks with
  | case1 xs ys rest ih =>
    rw [List.flatten_cons, ih, List.flatten_cons, List.flatten_cons, List.append_assoc]
  | case2 chunks _ => rfl

theorem length_joinPairs (chunks : List (List T)) :
    (joinPairs chunks).length = (chunks.length + 1) / 2 := by
  fun_induction joinPairs chunks with
  | case1 xs ys rest ih =>
    rw [List.length_cons, ih, List.length_cons, List.length_cons]
    omega
  | case2 chunks h =>
    match chunks, h with
    | [], _ => simp
    | [_], _ => simp
    | xs :: ys :: rest, h => exact absurd rfl (h xs ys rest)

/-- **A round of merging** sorts every two neighbouring chunks together. -/
theorem outcome_mergePairs (h : Decides before c E) {chunks : List (List T)}
    (hE : ∀ a ∈ chunks.flatten, E a) :
    (mergePairs before (chunks.map fun xs => xs.mergeSort (ahead c))).outcome
      = .ok ((joinPairs chunks).map fun xs => xs.mergeSort (ahead c)) := by
  fun_induction joinPairs chunks with
  | case1 xs ys rest ih =>
    rw [List.flatten_cons, List.flatten_cons] at hE
    have hxs := fun a ha => hE a (List.mem_append_left _ ha)
    have hys := fun a ha => hE a (List.mem_append_right _ (List.mem_append_left _ ha))
    have hrest := ih fun a ha => hE a (List.mem_append_right _ (List.mem_append_right _ ha))
    show (merge before _ _ >>= fun merged => mergePairs before _ >>= fun rest =>
      Run.done (merged :: rest)).outcome = _
    rw [Run.outcome_bind_ok (outcome_merge_mergeSort h hxs hys), Run.outcome_bind_ok hrest]
    rfl
  | case2 chunks hshort =>
    match chunks, hshort with
    | [], _ => rfl
    | [_], _ => rfl
    | xs :: ys :: rest, hshort => exact absurd rfl (hshort xs ys rest)

/-- **Enough rounds** leave one chunk, which is the whole list in order. -/
theorem outcome_mergeChunks (h : Decides before c E) (rounds : Nat) {chunks : List (List T)}
    (hE : ∀ a ∈ chunks.flatten, E a) (hrounds : chunks.length ≤ rounds + 1) :
    (mergeChunks before rounds (chunks.map fun xs => xs.mergeSort (ahead c))).outcome
      = .ok (chunks.flatten.mergeSort (ahead c)) := by
  induction rounds generalizing chunks with
  | zero =>
    match chunks, hrounds with
    | [], _ => exact congrArg Except.ok List.mergeSort_nil.symm
    | [xs], _ =>
      show Except.ok ([xs.mergeSort (ahead c)].flatten) = _
      rw [List.flatten_singleton, List.flatten_singleton]
  | succ rounds ih =>
    unfold mergeChunks
    rw [Run.outcome_bind_ok (outcome_mergePairs h hE), ih, flatten_joinPairs]
    · rwa [flatten_joinPairs]
    · rw [length_joinPairs]
      omega

/-! ## The whole sort -/

/-- A half is sorted. -/
theorem outcome_sortHalf (h : Decides before c E) {xs : List T} (hE : ∀ a ∈ xs, E a) :
    (sortHalf before xs).outcome = .ok (xs.mergeSort (ahead c)) := by
  have heach : ∀ chunk ∈ chunks xs,
      (sortChunk before chunk).outcome = .ok (chunk.mergeSort (ahead c)) := fun chunk hchunk =>
    outcome_sortChunk h fun a ha => hE a (by
      rw [← flatten_chunks xs]
      exact List.mem_flatten.mpr ⟨chunk, hchunk, ha⟩)
  unfold sortHalf
  rw [Run.outcome_bind_ok (Run.outcome_each heach), outcome_mergeChunks h, flatten_chunks]
  · rwa [flatten_chunks]
  · rw [List.length_map]
    exact Nat.le_succ _

/-- **Sorting is the stable sort**: where the test decides between any two elements
of a list, the result is that of the library's stable sort. -/
theorem outcome_sort (h : Decides before c E) {xs : List T} (hE : ∀ a ∈ xs, E a) :
    (sort before xs).outcome = .ok (xs.mergeSort (ahead c)) := by
  have htake : ∀ a ∈ xs.take ((xs.length + 1) / 2), E a := fun a ha =>
    hE a (List.mem_of_mem_take ha)
  have hdrop : ∀ a ∈ xs.drop ((xs.length + 1) / 2), E a := fun a ha =>
    hE a (List.mem_of_mem_drop ha)
  unfold sort
  rw [Run.outcome_bind_ok (outcome_sortHalf h htake),
    Run.outcome_bind_ok (outcome_sortHalf h hdrop), outcome_mergeHalves h htake hdrop,
    List.take_append_drop]

/-! ## The ends of the sorted list -/

/-- The earlier of two elements, the first one of tied ones. -/
def earlierOf (c : T → T → Ordering) (best : Option T) (a : T) : Option T :=
  match best with
  | none => some a
  | some b => if c a b = .lt then some a else some b

/-- The later of two elements, the second one of tied ones. -/
def laterOf (c : T → T → Ordering) (best : Option T) (a : T) : Option T :=
  match best with
  | none => some a
  | some b => if c a b = .lt then some b else some a

/-- **What a fold keeps of the sorted list**: a fold whose step does to a part of the
sorted list what merging one more element does to the list has that part at the end. -/
theorem foldl_eq_of_merge {β : Type} {f : β → T → β} (part : List T → β)
    (h : ∀ s a, s.Pairwise (fun x y => ahead c x y = true) →
      f (part s) a = part (s.merge [a] (ahead c))) (xs : List T) :
    xs.foldl f (part []) = part (xs.mergeSort (ahead c)) := by
  -- what the fold has gone through already is the list that grows
  have hfrom : ∀ ys : List T, xs.foldl f (part (ys.mergeSort (ahead c)))
      = part ((ys ++ xs).mergeSort (ahead c)) := by
    induction xs with
    | nil => exact fun ys => by rw [List.append_nil, List.foldl_nil]
    | cons a xs ih =>
      intro ys
      have hstep := merge_mergeSort (c := c) ys [a]
      rw [List.mergeSort_singleton] at hstep
      rw [List.foldl_cons, h _ a (arranges_mergeSort ys).sorted, hstep, ih, List.append_assoc]
      rfl
  have hall := hfrom []
  rwa [List.mergeSort_nil] at hall

omit [TransCmp c] in
/-- The earlier of two elements is one of the two. -/
theorem earlierOf_eq (best : Option T) (a : T) :
    earlierOf c best a = some a ∨ earlierOf c best a = best := by
  cases best with
  | none => exact Or.inl rfl
  | some b =>
    show (if c a b = .lt then _ else _) = _ ∨ (if c a b = .lt then _ else _) = _
    split
    · exact Or.inl rfl
    · exact Or.inr rfl

omit [TransCmp c] in
/-- The later of two elements is one of the two. -/
theorem laterOf_eq (best : Option T) (a : T) :
    laterOf c best a = some a ∨ laterOf c best a = best := by
  cases best with
  | none => exact Or.inl rfl
  | some b =>
    show (if c a b = .lt then _ else _) = _ ∨ (if c a b = .lt then _ else _) = _
    split
    · exact Or.inr rfl
    · exact Or.inl rfl

/-- The first of one more element and a sorted list is found by one comparison. -/
theorem head?_merge_single (s : List T) (a : T) :
    (s.merge [a] (ahead c)).head? = earlierOf c s.head? a := by
  cases s with
  | nil => rw [List.nil_merge]; rfl
  | cons b s =>
    show _ = if c a b = .lt then some a else some b
    rw [List.cons_merge_cons, ahead_eq_not_lt]
    cases hab : c a b <;> rfl

/-- The last of one more element and a sorted list is found by one comparison. -/
theorem getLast?_merge_single {s : List T} (a : T)
    (hs : s.Pairwise fun x y => ahead c x y = true) :
    (s.merge [a] (ahead c)).getLast? = laterOf c s.getLast? a := by
  induction s with
  | nil => rw [List.nil_merge]; rfl
  | cons b s ih =>
    obtain ⟨hb, hs⟩ := List.pairwise_cons.mp hs
    rw [List.cons_merge_cons, ahead_eq_not_lt, List.getLast?_cons]
    by_cases hab : c a b = .lt
    · -- the new element is ahead of everything, so the last one stays
      have hlast : c a (s.getLast?.getD b) = .lt := by
        cases hl : s.getLast? with
        | none => exact hab
        | some l =>
          exact TransCmp.lt_of_lt_of_isLE hab (hb l (List.mem_of_getLast? hl))
      rw [hab]
      show (a :: (b :: s).merge [] (ahead c)).getLast? = _
      rw [List.merge_right, List.getLast?_cons, List.getLast?_cons]
      exact (if_pos hlast).symm
    · have hne : (!(c a b == .lt)) = true := by
        rw [beq_eq_false_iff_ne.mpr hab]
        rfl
      rw [if_pos hne, List.getLast?_cons, ih hs]
      cases s.getLast? with
      | none => exact (if_neg hab).symm
      | some l =>
        show some (Option.getD (if c a l = .lt then some l else some a) b)
          = if c a l = .lt then some l else some a
        split <;> rfl

/-- **One pass finds the first element** of the sorted list. -/
theorem foldl_earlierOf (xs : List T) :
    xs.foldl (earlierOf c) none = (xs.mergeSort (ahead c)).head? :=
  foldl_eq_of_merge List.head? (fun s a _ => (head?_merge_single s a).symm) xs

/-- **One pass finds the last element** of the sorted list. -/
theorem foldl_laterOf (xs : List T) :
    xs.foldl (laterOf c) none = (xs.mergeSort (ahead c)).getLast? :=
  foldl_eq_of_merge List.getLast? (fun _ a hs => (getLast?_merge_single a hs).symm) xs

end

end StableSort

end Criteria
