import Mathlib.Order.RelClasses
import Criteria.Proofs.Selecting

/-!
# Sorting by several keys

The keys of a sort order are asked one after another, and the first that tells two entities
apart decides. That is the lexicographic product of the comparisons by the single keys, and a
total preorder where each of them is. So sorting gives the one stable arrangement by it
(`Arranges`), and the same arrangement is reached by sorting by one key at a time, the last key
first: a stable sort by a key leaves tied what the keys behind it have arranged
(`Arranges.lex`).

To reverse the direction of every key is to swap the comparison, and a list is arranged by the
swapped comparison where the reversed list, read backwards, is arranged by the comparison itself
(`SortOrder.exists_chained`).

What is asked of a key is that the data it extracts from the entities are there and that its
order of them is a strict weak one. For the types of fields that is so wherever no datum is a
not-a-number (`FieldType.strictWeakOn_lt`).
-/

namespace Criteria

open Std (OrientedCmp ReflCmp TransCmp)

variable {T : Type}

/-! ## Strict weak orders -/

/-- **A strict weak order** of the data of a kind. -/
def StrictWeakOn {K : Type} (less : K → K → Bool) (D : K → Prop) : Prop :=
  IsStrictWeakOrder {x // D x} fun a b => less a b = true

/-- A comparison is a total preorder of the data that its order is a strict weak one of. -/
theorem StrictWeakOn.transCmp {K : Type} {less : K → K → Bool} {D : K → Prop}
    (h : StrictWeakOn less D) : TransCmp fun a b : {x // D x} => threeWay less a b := by
  have weak : IsStrictWeakOrder {x // D x} fun a b => less a b = true := h
  have hirrefl : ∀ a : {x // D x}, ¬ less a a = true := weak.toIrrefl.irrefl
  have htrans : ∀ a b d : {x // D x}, less a b = true → less b d = true → less a d = true :=
    weak.toIsTrans.trans
  have hasymm : ∀ a b : {x // D x}, less a b = true → less b a = false := fun a b hab =>
    Bool.eq_false_iff.mpr fun hba => hirrefl a (htrans a b a hab hba)
  show TransCmp (threeWay fun a b : {x // D x} => less a b)
  refine transCmp_threeWay hasymm fun a b d hba hdb => Bool.eq_false_iff.mpr fun hda => ?_
  rw [← Bool.not_eq_true] at hba hdb
  -- `b` could be compared with neither of the two, and so they could not be compared
  have hab : ¬ less a b = true := fun hab => hdb (htrans d a b hda hab)
  have hbd : ¬ less b d = true := fun hbd => hba (htrans b d a hbd hda)
  exact (weak.incomp_trans a b d ⟨hab, hba⟩ ⟨hbd, hdb⟩).2 hda

/-- The order of a total preorder is a strict weak one. -/
theorem strictWeakOn_of_transCmp {K : Type} {less : K → K → Bool} {D : K → Prop}
    {c : K → K → Ordering} [TransCmp c]
    (h : ∀ a b, D a → D b → less a b = (c a b == .lt)) : StrictWeakOn less D := by
  have hless : ∀ a b : {x // D x}, less a b = true ↔ c a b = .lt := fun a b => by
    rw [h a b a.2 b.2, beq_iff_eq]
  have hnot : ∀ a b : {x // D x}, ¬ less a b = true ↔ (c b a).isLE = true := fun a b => by
    rw [hless, Ordering.isLE_iff_ne_gt, ← OrientedCmp.gt_iff_lt]
  exact
    { irrefl := fun a ha => by
        have heq : c a a = .eq := ReflCmp.compare_self
        rw [hless, heq] at ha
        cases ha
      trans := fun a b d hab hbd => by
        rw [hless] at hab hbd ⊢
        exact TransCmp.lt_trans hab hbd
      incomp_trans := fun a b d hab hbd => by
        simp only [hnot] at hab hbd ⊢
        exact ⟨TransCmp.isLE_trans hbd.1 hab.1, TransCmp.isLE_trans hab.2 hbd.2⟩ }

/-- **The order of a type of fields** is a strict weak one without a not-a-number. -/
theorem FieldType.strictWeakOn_lt {t : FieldType} (ht : t.isComparable = true) :
    StrictWeakOn t.lt t.NaNFree := by
  have := t.transCmp_compare
  refine strictWeakOn_of_transCmp (c := t.compare) fun a b ha hb => ?_
  rw [← threeWay_lt ht ha hb]
  unfold threeWay
  cases t.lt a b with
  | true => rfl
  | false => cases t.lt b a <;> rfl

/-! ## Arrangements by a key and a tie-breaker -/

namespace StableSort

variable {c d : T → T → Ordering} [TransCmp c]

/-- **An arrangement by a key of an arrangement by a tie-breaker** arranges by both. -/
theorem Arranges.lex {xs t s : List T} (ht : Arranges d xs t) (hs : Arranges c t s) :
    Arranges (compareLex c d) xs s where
  perm := hs.perm.trans ht.perm
  sorted := by
    refine List.pairwise_iff_forall_sublist.mpr fun {a b} hab => ?_
    show ((c a b).then (d a b)).isLE = true
    cases Ordering.isLE_iff_eq_lt_or_eq_eq.mp
      (List.pairwise_iff_forall_sublist.mp hs.sorted hab) with
    | inl hlt =>
      rw [hlt]
      rfl
    | inr heq =>
      -- tied by the key, the two are still as the tie-breaker has arranged them
      have hpair : [a, b].filter (tied c a) = [a, b] :=
        List.filter_eq_self.mpr fun x hx => by
          rcases List.mem_pair.mp hx with rfl | rfl
          · exact tied_self x
          · exact beq_iff_eq.mpr heq
      have hsub : ([a, b]).Sublist t := by
        have hfilter := hab.filter (tied c a)
        rw [hpair, hs.stable a] at hfilter
        exact hfilter.trans List.filter_sublist
      rw [heq]
      exact List.pairwise_iff_forall_sublist.mp ht.sorted hsub
  stable a := by
    have htied (l : List T) :
        l.filter (tied (compareLex c d) a) = (l.filter (tied c a)).filter (tied d a) := by
      rw [List.filter_filter]
      refine congrArg (l.filter ·) (funext fun b => ?_)
      show ((c a b).then (d a b) == .eq) = (d a b == .eq && c a b == .eq)
      cases c a b <;> cases d a b <;> rfl
    calc s.filter (tied (compareLex c d) a)
        = (t.filter (tied c a)).filter (tied d a) := by rw [htied, hs.stable a]
      _ = (t.filter (tied d a)).filter (tied c a) := List.filter_comm _ _ t
      _ = (xs.filter (tied c a)).filter (tied d a) := by rw [ht.stable a, List.filter_comm]
      _ = xs.filter (tied (compareLex c d) a) := (htied xs).symm

/-- **Sorting by a tie-breaker and then by a key** is sorting by both. -/
theorem mergeSort_compareLex [TransCmp d] (xs : List T) :
    (xs.mergeSort (ahead d)).mergeSort (ahead c) = xs.mergeSort (ahead (compareLex c d)) :=
  ((arranges_mergeSort xs).lex (arranges_mergeSort _)).eq_mergeSort

end StableSort

/-! ## Keys -/

namespace SortKey

/-- **A key by data that are there** and that its order is a strict weak one of. -/
inductive Ordered (rows : List T) : SortKey T → Prop
  | via {K : Type} {less : K → K → Bool} {extract : T → Run K} {D : K → Prop}
      (weak : StrictWeakOn less D)
      (present : ∀ e ∈ rows, ∃ x, (extract e).outcome = .ok x ∧ D x)
      (direction : Direction) (field : Option Text) :
      Ordered rows ⟨compareVia less extract, direction, field⟩

/-- A field of a comparable type whose data are there, without a not-a-number. -/
theorem ordered_ofField {rows : List T} {t : FieldType} {f : Field T t}
    (ht : t.isComparable = true)
    (present : ∀ e ∈ rows, ∃ x, (f.getter e).outcome = .ok x ∧ t.NaNFree x)
    (direction : Direction) : Ordered rows (.ofField f direction) :=
  .via (FieldType.strictWeakOn_lt ht) present direction (some f.name)

/-- **A key compares** by a total preorder. -/
theorem Ordered.exists_comparison {rows : List T} {key : SortKey T} (h : key.Ordered rows) :
    ∃ c, TransCmp c ∧ ∀ a ∈ rows, ∀ b ∈ rows, (key.compare a b).outcome = .ok (c a b) := by
  cases h with
  | @via K less extract D weak present direction field =>
    obtain ⟨c, hc, hdata⟩ := SortOrder.exists_comparison_of_data weak.transCmp present
    refine ⟨_, SortOrder.transCmp_apply hc direction, fun a ha b hb => ?_⟩
    obtain ⟨x, y, hx, hy, hxy⟩ := hdata a ha b hb
    rw [hxy]
    exact Run.outcome_bind_ok (outcome_compareVia hx hy) _

/-- The key in the other direction. -/
def reversed (key : SortKey T) : SortKey T := { key with direction := key.direction.reverse }

theorem compare_reversed (key : SortKey T) (a b : T) :
    key.reversed.compare a b = (key.compare a b >>= fun o => .done o.swap) := by
  obtain ⟨ascending, direction, field⟩ := key
  show (ascending a b >>= fun o => .done (direction.reverse.apply o)) = (_ >>= _) >>= _
  rw [Run.bind_bind]
  refine congrArg (ascending a b >>= ·) (funext fun o => ?_)
  show Run.done _ = Run.done _
  cases direction <;> cases o <;> rfl

end SortKey

namespace SortOrder

/-! ## Orders -/

/-- The order by one key alone. -/
def only (key : SortKey T) : SortOrder T := ⟨[key], {}⟩

/-- The entities sorted by one key after the other, the last one first. -/
def sortByEach : List (SortKey T) → List T → Run (List T)
  | [], xs => .done xs
  | key :: keys, xs => do
    let xs ← sortByEach keys xs
    (only key).sort xs

/-- The order with every key in the other direction. -/
def reversed (o : SortOrder T) : SortOrder T := { o with keys := o.keys.map SortKey.reversed }

/-- **To reverse the directions is to swap the comparison.** -/
theorem compareByKeys_reversed (keys : List (SortKey T)) (a b : T) :
    compareByKeys (keys.map SortKey.reversed) a b
      = (compareByKeys keys a b >>= fun o => .done o.swap) := by
  induction keys with
  | nil => rfl
  | cons key keys ih =>
    show (key.reversed.compare a b >>= fun o => if o = .eq then _ else _) = (_ >>= _) >>= _
    rw [key.compare_reversed, ih, Run.bind_bind, Run.bind_bind]
    refine congrArg (key.compare a b >>= ·) (funext fun o => ?_)
    cases o <;> rfl

/-- **One comparison by all keys**, and sorting by one key after the other sorts by it. -/
theorem exists_comparison {rows : List T} (keys : List (SortKey T))
    (ordered : ∀ key ∈ keys, key.Ordered rows) :
    ∃ c, TransCmp c ∧
      (∀ a ∈ rows, ∀ b ∈ rows, (compareByKeys keys a b).outcome = .ok (c a b)) ∧
      (sortByEach keys rows).outcome = .ok (rows.mergeSort (StableSort.ahead c)) := by
  induction keys with
  | nil =>
    refine ⟨fun _ _ => .eq, { eq_swap := rfl, isLE_trans := fun _ _ => rfl },
      fun _ _ _ _ => rfl, ?_⟩
    rw [mergeSort_of_absent]
    rfl
  | cons key keys ih =>
    obtain ⟨d, hd, hrest, heach⟩ := ih fun k hk => ordered k (List.mem_cons_of_mem key hk)
    obtain ⟨c, hc, hkey⟩ := (ordered key List.mem_cons_self).exists_comparison
    refine ⟨compareLex c d, inferInstance, fun a ha b hb => ?_, ?_⟩
    · unfold compareByKeys
      rw [Run.outcome_bind_ok (hkey a ha b hb)]
      exact outcome_then _ (hrest a ha b hb)
    · have honly : ∀ a ∈ rows, ∀ b ∈ rows, ((only key).compare a b).outcome = .ok (c a b) :=
        fun a ha b hb => outcome_compareByKeys_single (hkey a ha b hb)
      unfold sortByEach
      rw [Run.outcome_bind_ok heach, ← StableSort.mergeSort_compareLex]
      exact outcome_sortBy honly fun a ha => List.mem_mergeSort.mp ha

/-- **What sorting by several keys is**: the stable arrangement by a total preorder, the one that
sorting by each key in turn gives, and seen from the back that of the reversed list. -/
structure Chained (o : SortOrder T) (rows : List T) (c : T → T → Ordering) (sorted : List T) :
    Prop where
  /-- The comparison is a total preorder. -/
  total : TransCmp c
  /-- It is that of the order. -/
  compares : ∀ a ∈ rows, ∀ b ∈ rows, (o.compare a b).outcome = .ok (c a b)
  /-- This is the sorted list. -/
  sort : (o.sort rows).outcome = .ok sorted
  /-- It has the entities of the list, in order, and tied ones as they were. -/
  arranges : StableSort.Arranges c rows sorted
  /-- Sorting by the last key alone, then by the one before it, and so on gives the same. -/
  byEach : (sortByEach o.keys rows).outcome = .ok sorted
  /-- In the other direction of every key it is the reversed list that is sorted, backwards. -/
  reversed : ∃ back, (o.sort rows.reverse).outcome = .ok back ∧
    (o.reversed.sort rows).outcome = .ok back.reverse

/-- **Sorting by several keys** is sorting by one at a time, for keys by strict weak orders. -/
theorem exists_chained (o : SortOrder T) (rows : List T)
    (ordered : ∀ key ∈ o.keys, key.Ordered rows) : ∃ c sorted, o.Chained rows c sorted := by
  obtain ⟨c, hc, hcompare, heach⟩ := exists_comparison o.keys ordered
  have hsort {xs : List T} (hxs : xs ⊆ rows) :
      (o.sort xs).outcome = .ok (xs.mergeSort (StableSort.ahead c)) := outcome_sortBy hcompare hxs
  have hreversed : ∀ a ∈ rows, ∀ b ∈ rows, (o.reversed.compare a b).outcome = .ok (c b a) := by
    intro a ha b hb
    have hswap : (c a b).swap = c b a := OrientedCmp.eq_swap.symm
    show (compareByKeys (o.keys.map SortKey.reversed) a b).outcome = _
    rw [compareByKeys_reversed, Run.outcome_bind_ok (hcompare a ha b hb), hswap]
    rfl
  have hback : (o.reversed.sort rows).outcome
      = .ok (rows.mergeSort (StableSort.ahead fun a b => c b a)) :=
    outcome_sortBy hreversed (List.Subset.refl rows)
  refine ⟨c, _, hc, hcompare, hsort (List.Subset.refl rows), StableSort.arranges_mergeSort rows,
    heach, _, hsort fun a ha => List.mem_reverse.mp ha, ?_⟩
  rw [hback, ← StableSort.mergeSort_opposite, List.reverse_reverse]

open Predicate (flagRows rightFlag)

/-- How many flags of a pair are set. -/
def flagCount (e : Bool × Bool) : Run Nat := .done (e.1.toNat + e.2.toNat)

/-- Pairs of flags by the second one, the set ones first, and then by how many are set. -/
def rightThenCount : SortOrder (Bool × Bool) :=
  (unordered.thenBy rightFlag .descending).thenByExtractor (fun m n => decide (m < n))
    (some flagCount)

theorem rightThenCount_ordered (rows : List (Bool × Bool)) :
    ∀ key ∈ rightThenCount.keys, key.Ordered rows := by
  have hkeys : rightThenCount.keys = [.ofField rightFlag .descending,
      .ofExtractor (fun m n => decide (m < n)) (some flagCount) .ascending] := rfl
  have hcount : StrictWeakOn (fun m n : Nat => decide (m < n)) fun _ => True := by
    refine strictWeakOn_of_transCmp (c := fun m n => Ord.compare m n) fun m n _ _ => ?_
    rw [Bool.eq_iff_iff, decide_eq_true_iff, beq_iff_eq, Nat.compare_eq_lt]
  rw [hkeys]
  intro key hkey
  simp only [List.mem_cons, List.not_mem_nil, or_false] at hkey
  rcases hkey with rfl | rfl
  · exact SortKey.ordered_ofField (t := .bool) rfl (fun e _ => ⟨e.2, rfl, trivial⟩) .descending
  · exact .via hcount (fun e _ => ⟨_, rfl, trivial⟩) .ascending none

/-- Sorting pairs of flags by two keys, one of which is no field. -/
theorem exists_chained_flags :
    (∀ key ∈ rightThenCount.keys, key.Ordered flagRows) ∧
      ∃ c sorted, rightThenCount.Chained flagRows c sorted :=
  ⟨rightThenCount_ordered flagRows,
    exists_chained rightThenCount flagRows (rightThenCount_ordered flagRows)⟩

end SortOrder

end Criteria
