import Criteria.Proofs.Chaining
import Criteria.Proofs.Ends
import Criteria.Proofs.Reducing

/-!
# Reductions of concatenated lists

A reduction of two lists, one behind the other, is made of the reductions of the two
(`Evaluator.Composes`): the selected values are those of the one list and then those of the
other, and each reduction is a fold of them by an operation that is associative. A sum begins
with zero, which has to be an identity of the addition. The other reductions begin with the
first value, so that the one list alone decides where nothing of the other passes.

## Extremes

For an extreme it is a strict weak order that makes the better of two values associative. Values
that the order ties need not be equal, and then it matters which of them is the extreme: it is
the first one, hence the value of the earliest entity that passes and that no other is better
than. This is the head of the values sorted by the order, and a stable sort of a concatenation
is the two parts sorted and merged.
-/

namespace Criteria

open StableSort (ahead)
open Std (ReflCmp TransCmp)

variable {T N : Type}

/-! ## Results -/

/-- The result of a run, if it has one. -/
def Run.result? (r : Run N) : Option N := r.outcome.toOption

/-- The first of two merged lists is the first of the first list, unless that of the second one
comes before it. -/
theorem StableSort.head?_merge (le : T → T → Bool) (s t : List T) :
    (s.merge t le).head? = Option.merge (fun a b => if le a b then a else b) s.head? t.head? := by
  cases s with
  | nil => rw [List.nil_merge]; cases t.head? <;> rfl
  | cons a s =>
    cases t with
    | nil => rw [List.merge_right]; rfl
    | cons b t =>
      rw [List.cons_merge_cons]
      cases h : le a b <;> simp [Option.merge, h]

namespace Evaluator

namespace Extreme

variable [Numeric N] {D : N → Prop}

/-! ## The better of two values -/

/-- Which of two values of a kind is better. -/
def order (extreme : Extreme) (a b : {y // D y}) : Ordering :=
  threeWay (fun a b : N => extreme.improves b a) a b

/-- Whether no value of a list is better than a given one. -/
def isBest (extreme : Extreme) (ys : List N) (y : N) : Bool :=
  ys.all fun z => !extreme.improves y z

variable {extreme : Extreme}

theorem isBest_iff {ys : List N} {y : N} :
    extreme.isBest ys y = true ↔ ∀ z ∈ ys, extreme.improves y z = false := by
  simp only [isBest, List.all_eq_true, Bool.not_eq_true']

theorem order_eq_lt_iff {a b : {y // D y}} :
    extreme.order a b = .lt ↔ extreme.improves b.1 a.1 = true := by
  unfold order threeWay
  split
  · exact iff_of_true rfl ‹_›
  · split <;> exact iff_of_false Ordering.noConfusion ‹_›

variable (weak : StrictWeakOn Numeric.less D)

include weak

/-- Either way it is a total preorder, if the order of the numbers is a strict weak one. -/
theorem transCmp_order : TransCmp (extreme.order (D := D)) := by
  have := weak.transCmp
  cases extreme with
  | least => exact weak.transCmp
  | greatest =>
    exact inferInstanceAs (TransCmp fun a b : {y // D y} => threeWay Numeric.less b.1 a.1)

/-- The first of two values may stand ahead of the second unless that is better. -/
theorem ahead_order (a b : {y // D y}) :
    ahead extreme.order a b = !extreme.improves a.1 b.1 := by
  have : TransCmp (extreme.order (D := D)) := transCmp_order weak
  rw [StableSort.ahead_eq_not_lt, Bool.eq_iff_iff, Bool.not_eq_true', Bool.not_eq_true',
    beq_eq_false_iff_ne, Ne, order_eq_lt_iff, Bool.not_eq_true]

/-- **The values combined to the better one** are the head of the sorted values. -/
theorem combined_eq_head? (ys : List {y // D y}) :
    combined extreme.better (ys.map Subtype.val)
      = (ys.mergeSort (ahead extreme.order)).head?.map Subtype.val := by
  have : TransCmp (extreme.order (D := D)) := transCmp_order weak
  rw [← StableSort.foldl_earlierOf, combined, List.foldl_map]
  have hstep (best : Option {y // D y}) (y : {y // D y}) :
      Option.merge extreme.better (best.map Subtype.val) (some y.1)
        = (StableSort.earlierOf extreme.order best y).map Subtype.val := by
    cases best with
    | none => rfl
    | some b =>
      simp only [StableSort.earlierOf, order_eq_lt_iff]
      show some (if extreme.improves b.1 y.1 then _ else _) = _
      split <;> rfl
  show ys.foldl _ ((none : Option {y // D y}).map Subtype.val) = _
  exact List.foldl_hom _ hstep

/-- An extreme is **the first value that none is better than**. -/
theorem combined_eq_find? (ys : List {y // D y}) :
    combined extreme.better (ys.map Subtype.val)
      = (ys.map Subtype.val).find? (extreme.isBest (ys.map Subtype.val)) := by
  have : TransCmp (extreme.order (D := D)) := transCmp_order weak
  have harranges := StableSort.arranges_mergeSort (c := extreme.order) ys
  rw [combined_eq_head? weak]
  cases hhead : (ys.mergeSort (ahead extreme.order)).head? with
  | none =>
    have hnil : ys = [] := (List.head?_eq_none_iff.mp hhead ▸ harranges.perm).nil_eq.symm
    rw [hnil]
    rfl
  | some e =>
    obtain ⟨as, bs, rfl, has, hbs⟩ := harranges.exists_split_of_head? hhead
    -- none is better than the head, and the head is better than what stands ahead of it
    have hbest : ∀ z ∈ as ++ e :: bs, extreme.improves e.1 z.1 = false := fun z hz => by
      rw [← Bool.not_eq_true', ← ahead_order weak]
      rcases List.mem_append.mp hz with hz | hz
      · exact Ordering.isLE_of_eq_lt (has z hz)
      · rcases List.mem_cons.mp hz with rfl | hz
        · exact ReflCmp.isLE_rfl
        · exact hbs z hz
    symm
    rw [List.find?_map, Option.map_some]
    refine congrArg _ (List.find?_eq_some_iff_append.mpr ⟨?_, as, bs, rfl, fun a ha => ?_⟩)
    · exact isBest_iff.mpr (List.forall_mem_map.mpr hbest)
    · have hworse : extreme.improves a.1 e.1 = true := order_eq_lt_iff.mp (has a ha)
      rw [Function.comp_apply, Bool.not_eq_true', ← Bool.not_eq_true, isBest_iff]
      exact fun h => absurd (hworse.symm.trans (List.forall_mem_map.mp h e (by simp))) (by decide)

/-- **The extreme of a concatenation** is the better one of the extremes of the parts. -/
theorem combined_better_append (xs ys : List {y // D y}) :
    combined extreme.better ((xs ++ ys).map Subtype.val)
      = Option.merge extreme.better (combined extreme.better (xs.map Subtype.val))
          (combined extreme.better (ys.map Subtype.val)) := by
  have : TransCmp (extreme.order (D := D)) := transCmp_order weak
  simp only [combined_eq_head? weak]
  rw [← StableSort.merge_mergeSort, StableSort.head?_merge]
  cases (xs.mergeSort (ahead extreme.order)).head? with
  | none => cases (ys.mergeSort (ahead extreme.order)).head? <;> rfl
  | some a =>
    cases (ys.mergeSort (ahead extreme.order)).head? with
    | none => rfl
    | some b =>
      simp only [Option.merge, Option.map_some, ahead_order weak, better]
      cases extreme.improves a.1 b.1 <;> rfl

end Extreme

/-! ## Reductions of a concatenation -/

/-- **A reduction that composes**: its result over two lists, one behind the other, is made of
its results over each, and is that of the one where the other has none. -/
def ComposesBy (f : N → N → N) (reduce : List T → Run N) (xs ys : List T) : Prop :=
  (reduce (xs ++ ys)).result? = Option.merge f (reduce xs).result? (reduce ys).result?

/-- **An extreme of a concatenation.** -/
structure ComposesExtreme [Numeric N] (v : Evaluator T) (extreme : Extreme) (x : T → N)
    (reduce : List T → Run N) (xs ys : List T) : Prop where
  /-- It is the value of the earliest entity that passes and that none is better than. -/
  earliest : (reduce (xs ++ ys)).result?
    = ((chosen v.predicate v.negate (xs ++ ys)).find? fun e =>
        extreme.isBest (v.selected x (xs ++ ys)) (x e)).map x
  /-- It is the better one of those of the parts, the first of equals. -/
  parts : ComposesBy extreme.better reduce xs ys

/-- **A reduction that needs something to reduce**: it fails where nothing passes, and only
there. -/
structure NeedsMatches {R : Type} (v : Evaluator T) (reduce : List T → Run R)
    (reduction : Reduction) (source : List T) : Prop where
  /-- Its fault is that of a reduction over nothing. -/
  fails_iff : (reduce source).outcome = .error (.emptyResult reduction) ↔
    (v.count source).outcome = .ok 0
  /-- Where something passes it has a result. -/
  answers : (v.count source).outcome ≠ .ok 0 → ∃ y, (reduce source).outcome = .ok y

/-- **What the reductions do where nothing passes**, and that they do it nowhere else. -/
structure TellsNothing [Numeric N] (v : Evaluator T) (value : T → Run N)
    (combine : N × N → Run N) (source : List T) : Prop where
  /-- The sum is zero. -/
  sum : (v.count source).outcome = .ok 0 →
    (v.sum source (some value)).outcome = .ok Numeric.zero
  /-- The others fail, -/
  min : v.NeedsMatches (fun source => v.min source (some value)) .min source
  max : v.NeedsMatches (fun source => v.max source (some value)) .max source
  average : v.NeedsMatches (fun source => v.average source (some value)) .average source
  aggregate : v.NeedsMatches (fun source => v.aggregate source (some value) (some combine))
    .aggregate source
  /-- or answer the fallback that they have been given. -/
  minOr : ∀ y, (v.minOr source (some value) y).outcome
    = .ok ((v.min source (some value)).result?.getD y)
  maxOr : ∀ y, (v.maxOr source (some value) y).outcome
    = .ok ((v.max source (some value)).result?.getD y)
  averageOr : ∀ y, (v.averageOr source (some value) y).outcome
    = .ok ((v.average source (some value)).result?.getD y)

/-- **Reductions of two lists in a row**, of numbers with the laws that each asks for. -/
structure Composes [Numeric N] (v : Evaluator T) (value : T → Run N) (x : T → N)
    (combine : N × N → Run N) (f : N → N → N) (xs ys : List T) : Prop where
  /-- Extremes compose where the order of the values is a strict weak one, -/
  min : StrictWeakOn Numeric.less (· ∈ v.selected x (xs ++ ys)) →
    v.ComposesExtreme .least x (fun source => v.min source (some value)) xs ys
  max : StrictWeakOn Numeric.less (· ∈ v.selected x (xs ++ ys)) →
    v.ComposesExtreme .greatest x (fun source => v.max source (some value)) xs ys
  /-- sums where the addition is associative and has zero for an identity, -/
  sum [Std.Associative (Numeric.add : N → N → N)]
      [Std.LawfulIdentity (Numeric.add : N → N → N) Numeric.zero] :
    ∃ m n, (v.sum xs (some value)).outcome = .ok m ∧ (v.sum ys (some value)).outcome = .ok n ∧
      (v.sum (xs ++ ys) (some value)).outcome = .ok (Numeric.add m n)
  /-- and folds of the caller by an associative function. -/
  aggregate [Std.Associative f] :
    ComposesBy f (fun source => v.aggregate source (some value) (some combine)) xs ys
  /-- They tell nothing from something, in the parts and in the whole. -/
  tell : ∀ part ∈ [xs, ys, xs ++ ys], v.TellsNothing value combine part

section

variable {v : Evaluator T} {value : T → Run N} {x : T → N} {source xs ys : List T}

/-- The result of a reduction that has to have one. -/
theorem result?_of_orEmpty {R : Type} {r : Run R} {reduction : Reduction} {result : Option R}
    (h : r.outcome = (orEmpty reduction result).outcome) : r.result? = result := by
  unfold Run.result?
  rw [h]
  cases result <;> rfl

namespace Selects

section

variable (h : v.Selects value x source)

include h

theorem needsMatches {R : Type} {reduce : List T → Run R} {reduction : Reduction}
    {result : Option R}
    (hreduce : (reduce source).outcome = (orEmpty reduction result).outcome)
    (hnone : result = none ↔ chosen v.predicate v.negate source = []) :
    v.NeedsMatches reduce reduction source := by
  have hcount : (v.count source).outcome = .ok 0 ↔ result = none := by
    rw [h.outcome_count, Except.ok.injEq, List.length_eq_zero_iff, selected_eq_nil_iff, hnone]
  constructor
  case fails_iff =>
    rw [hcount, hreduce]
    cases result <;> simp [orEmpty]
  case answers =>
    rw [Ne, hcount, hreduce]
    cases result with
    | none => exact fun hne => absurd rfl hne
    | some y => exact fun _ => ⟨y, rfl⟩

variable [Numeric N]

/-- Both extremes are the values combined to the better one. -/
theorem outcome_min : (v.min source (some value)).outcome
    = (orEmpty .min (combined Extreme.least.better (v.selected x source))).outcome :=
  Run.outcome_bind_ok (h.outcome_extreme? .least) _

theorem outcome_max : (v.max source (some value)).outcome
    = (orEmpty .max (combined Extreme.greatest.better (v.selected x source))).outcome :=
  Run.outcome_bind_ok (h.outcome_extreme? .greatest) _

/-- **Nothing is told from something** by every reduction. -/
theorem tellsNothing {combine : N × N → Run N} {f : N → N → N}
    (hcombine : ∀ m n, (combine (m, n)).outcome = .ok (f m n)) :
    v.TellsNothing value combine source := by
  have hcombined (f : N → N → N) : combined f (v.selected x source) = none ↔
      chosen v.predicate v.negate source = [] :=
    combined_eq_none_iff.trans selected_eq_nil_iff
  obtain ⟨mean, hmean, hmean_none⟩ := h.exists_average?
  have haverage : (v.average source (some value)).outcome = (orEmpty .average mean).outcome :=
    Run.outcome_bind_ok hmean _
  constructor
  case sum =>
    intro hcount
    rw [h.outcome_count, Except.ok.injEq, List.length_eq_zero_iff] at hcount
    rw [h.outcome_sum, hcount]
    rfl
  case min => exact h.needsMatches h.outcome_min (hcombined _)
  case max => exact h.needsMatches h.outcome_max (hcombined _)
  case average => exact h.needsMatches haverage hmean_none
  case aggregate => exact h.needsMatches (h.outcome_aggregate hcombine) (hcombined f)
  case minOr =>
    intro y
    rw [result?_of_orEmpty h.outcome_min]
    exact Run.outcome_bind_ok (h.outcome_extreme? .least) _
  case maxOr =>
    intro y
    rw [result?_of_orEmpty h.outcome_max]
    exact Run.outcome_bind_ok (h.outcome_extreme? .greatest) _
  case averageOr =>
    intro y
    rw [result?_of_orEmpty haverage]
    exact Run.outcome_bind_ok hmean _

end

variable [Numeric N] (h : v.Selects value x (xs ++ ys))

include h

/-- **An extreme composes**, by a strict weak order of the values. -/
theorem composesExtreme {extreme : Extreme} {reduce : List T → Run N}
    (weak : StrictWeakOn Numeric.less (· ∈ v.selected x (xs ++ ys)))
    (hreduce : ∀ part, v.Selects value x part →
      (reduce part).result? = combined extreme.better (v.selected x part)) :
    v.ComposesExtreme extreme x reduce xs ys := by
  have hxs := h.of_sublist (List.sublist_append_left xs ys)
  have hys := h.of_sublist (List.sublist_append_right xs ys)
  have happend := selected_append v x xs ys
  -- the values of either part, as values of the kind that the order is one of
  obtain ⟨as, has⟩ : ∃ as : List {y // y ∈ v.selected x (xs ++ ys)},
      as.map Subtype.val = v.selected x xs :=
    ⟨(v.selected x xs).attachWith _ fun y hy => by simp [happend, hy], by simp⟩
  obtain ⟨bs, hbs⟩ : ∃ bs : List {y // y ∈ v.selected x (xs ++ ys)},
      bs.map Subtype.val = v.selected x ys :=
    ⟨(v.selected x ys).attachWith _ fun y hy => by simp [happend, hy], by simp⟩
  have hall : (as ++ bs).map Subtype.val = v.selected x (xs ++ ys) := by
    rw [List.map_append, has, hbs, happend]
  constructor
  case earliest =>
    rw [hreduce _ h, ← hall, Extreme.combined_eq_find? weak, hall]
    exact List.find?_map ..
  case parts =>
    unfold ComposesBy
    rw [hreduce _ h, hreduce _ hxs, hreduce _ hys, ← hall, ← has, ← hbs]
    exact Extreme.combined_better_append weak as bs

end Selects

/-- **The reductions compose**: over two lists, one behind the other, they are made of what they
are over each. -/
theorem reductions_compose [Numeric N] (v : Evaluator T) {value : T → Run N} {x : T → N}
    {combine : N × N → Run N} {f : N → N → N} {xs ys : List T}
    (selects : v.Selects value x (xs ++ ys))
    (combines : ∀ m n, (combine (m, n)).outcome = .ok (f m n)) :
    v.Composes value x combine f xs ys := by
  have hxs := selects.of_sublist (List.sublist_append_left xs ys)
  have hys := selects.of_sublist (List.sublist_append_right xs ys)
  constructor
  case min =>
    exact fun weak => selects.composesExtreme weak fun part hpart =>
      result?_of_orEmpty hpart.outcome_min
  case max =>
    exact fun weak => selects.composesExtreme weak fun part hpart =>
      result?_of_orEmpty hpart.outcome_max
  case sum =>
    intro _ _
    refine ⟨_, _, hxs.outcome_sum, hys.outcome_sum, selects.outcome_sum.trans ?_⟩
    rw [selected_append, foldl_append_of_assoc]
  case aggregate =>
    intro _
    unfold ComposesBy
    rw [result?_of_orEmpty (selects.outcome_aggregate combines),
      result?_of_orEmpty (hxs.outcome_aggregate combines),
      result?_of_orEmpty (hys.outcome_aggregate combines), selected_append, combined_append]
  case tell =>
    intro part hpart
    simp only [List.mem_cons, List.not_mem_nil, or_false] at hpart
    rcases hpart with rfl | rfl | rfl
    · exact hxs.tellsNothing combines
    · exact hys.tellsNothing combines
    · exact selects.tellsNothing combines

end

end Evaluator

/-- Wrapped integers have the laws that sums ask for. -/
instance (t : IntType) : Std.Associative (Numeric.add : FixedInt t → FixedInt t → FixedInt t) :=
  ⟨fun a b c => congrArg FixedInt.mk (BitVec.add_assoc a.bits b.bits c.bits)⟩

instance (t : IntType) :
    Std.LawfulIdentity (Numeric.add : FixedInt t → FixedInt t → FixedInt t) Numeric.zero where
  left_id a := congrArg FixedInt.mk (by
    show BitVec.ofInt t.width.bits 0 + a.bits = a.bits
    simp)
  right_id a := congrArg FixedInt.mk (by
    show a.bits + BitVec.ofInt t.width.bits 0 = a.bits
    simp)

/-! ## A sample -/

/-- Points, some of them won late. -/
structure Score where
  /-- How many there are. -/
  points : ℕ
  /-- Whether some are late. -/
  late : Bool
deriving DecidableEq

/-- Scores are ordered by their points alone. -/
instance : Numeric Score where
  zero := ⟨0, false⟩
  add a b := ⟨a.points + b.points, a.late || b.late⟩
  less a b := decide (a.points < b.points)
  toDecimal a := .ofInt .extended a.points

instance : Std.Associative (Numeric.add : Score → Score → Score) :=
  ⟨fun _ _ _ => congrArg₂ Score.mk (Nat.add_assoc ..) (Bool.or_assoc ..)⟩

instance : Std.LawfulIdentity (Numeric.add : Score → Score → Score) Numeric.zero where
  left_id _ := congrArg₂ Score.mk (Nat.zero_add _) (Bool.false_or _)
  right_id _ := congrArg₂ Score.mk (Nat.add_zero _) (Bool.or_false _)

namespace Score

theorem strictWeakOn_less (D : Score → Prop) : StrictWeakOn Numeric.less D := by
  have : TransCmp fun a b : Score => Ord.compare a.points b.points :=
    transCmp_comap inferInstance points
  refine strictWeakOn_of_transCmp (c := fun a b => Ord.compare a.points b.points) fun a b _ _ => ?_
  rw [Bool.eq_iff_iff, beq_iff_eq, Nat.compare_eq_lt]
  exact decide_eq_true_iff

/-- The score of a pair of flags. -/
def ofFlags (e : Bool × Bool) : Score := ⟨e.1.toNat, e.2⟩

end Score

namespace Evaluator

open Predicate (flags flagRows flags_decides)

/-- The scores of pairs of flags, in two parts. The order ties scores that are not equal. -/
theorem reductions_compose_scores :
    (Evaluator.mk flags false {}).Selects (fun e => .done (Score.ofFlags e)) Score.ofFlags
        (flagRows.take 2 ++ flagRows.drop 2) ∧
      (∀ m n : Score, (Run.done (Numeric.add m n)).outcome = .ok (Numeric.add m n)) ∧
      (∀ D, StrictWeakOn (Numeric.less : Score → Score → Bool) D) ∧
      (Evaluator.mk flags false {}).Composes (fun e => .done (Score.ofFlags e)) Score.ofFlags
        (fun pair => .done (Numeric.add pair.1 pair.2)) Numeric.add
        (flagRows.take 2) (flagRows.drop 2) := by
  have hselects : (Evaluator.mk flags false {}).Selects (fun e => .done (Score.ofFlags e))
      Score.ofFlags (flagRows.take 2 ++ flagRows.drop 2) :=
    ⟨flags_decides, fun _ _ => rfl⟩
  exact ⟨hselects, fun _ _ => rfl, Score.strictWeakOn_less,
    reductions_compose (Evaluator.mk flags false {}) hselects fun _ _ => rfl⟩

example : ((Evaluator.mk flags false {}).max flagRows (some fun e =>
    .done (Score.ofFlags e))).result? = some ⟨1, false⟩ := rfl

end Evaluator

end Criteria
