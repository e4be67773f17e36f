import Criteria.Proofs.DatumOrder
import Criteria.Proofs.Description
import Criteria.Proofs.Sorting

/-!
# Selecting in memory

An evaluator tests every entity, and a fault of one of them is a fault of the whole. If
the predicate has a verdict on each entity of a list (`Predicate.verdict`) and the order
ranks them without a fault (`SortOrder.Ranks`), every selection is a function of one list:
the entities that are wanted (`Evaluator.chosen`), in their stable arrangement.

Lists are that list itself. The first and the last entity are found in one pass over
entities that are not in order, and are its two ends.
-/

namespace Criteria

open StableSort (ahead)

variable {T : Type}

/-! ## Results -/

/-- The result of a run, or a default if it fails. -/
def Run.resultD {α : Type} (x : Run α) (fallback : α) : α :=
  match x.outcome with
  | .ok a => a
  | .error _ => fallback

theorem Run.outcome_eq_resultD {α : Type} {x : Run α} (h : ∃ a, x.outcome = .ok a)
    (fallback : α) : x.outcome = .ok (x.resultD fallback) := by
  obtain ⟨a, ha⟩ := h
  unfold resultD
  rw [ha]

/-! ## Verdicts -/

/-- The verdict of a predicate on an entity that it can be tested on. -/
def Predicate.verdict (p : Predicate T) (e : T) : Bool := (p.test e).resultD false

/-- **A predicate that decides a list** has a verdict on each of its entities. -/
def Predicate.Decides (p : Predicate T) (rows : List T) : Prop :=
  ∀ e ∈ rows, ∃ verdict, (p.test e).outcome = .ok verdict

theorem Predicate.Decides.mono {p : Predicate T} {rows xs : List T} (h : p.Decides rows)
    (hxs : xs ⊆ rows) : p.Decides xs := fun e he => h e (hxs he)

/-- Whether an entity passes, by the verdict. -/
theorem Evaluator.outcome_evaluate {p : Predicate T} {e : T}
    (h : ∃ verdict, (p.test e).outcome = .ok verdict) (negate : Bool) (limits : Limits) :
    ((Evaluator.mk p negate limits).evaluate e).outcome = .ok (p.verdict e != negate) :=
  Run.outcome_bind_ok (Run.outcome_eq_resultD h false) _

/-- Whether an entity is wanted, by the verdict. -/
theorem Evaluator.outcome_accepts {p : Predicate T} {e : T}
    (h : ∃ verdict, (p.test e).outcome = .ok verdict) (negate : Bool) (limits : Limits)
    (wanted : Bool) :
    ((Evaluator.mk p negate limits).accepts wanted e).outcome
      = .ok (p.verdict e != (negate == wanted)) := by
  unfold accepts
  rw [Run.outcome_bind_ok (outcome_evaluate h negate limits)]
  show Except.ok _ = Except.ok _
  cases p.verdict e <;> cases negate <;> cases wanted <;> rfl

/-- The rows that are wanted: those that a predicate holds of, or does not hold of. -/
def Evaluator.chosen (p : Predicate T) (negate : Bool) (rows : List T) : List T :=
  rows.filter fun e => p.verdict e != negate

/-! ## Orders without faults -/

/-- Two entities compare as what is extracted from them. -/
theorem SortKey.outcome_compareVia {K : Type} {less : K → K → Bool} {extract : T → Run K} {a b : T}
    {x y : K} (hx : (extract a).outcome = .ok x) (hy : (extract b).outcome = .ok y) :
    (compareVia less extract a b).outcome = .ok (threeWay less x y) := by
  unfold compareVia
  rw [Run.outcome_bind_ok hx, Run.outcome_bind_ok hy]
  rfl

/-- Sorting by a comparison without faults is the stable sort. -/
theorem SortOrder.outcome_sortBy {compare : T → T → Run Ordering} {c : T → T → Ordering}
    [Std.TransCmp c] {rows : List T}
    (h : ∀ a ∈ rows, ∀ b ∈ rows, (compare a b).outcome = .ok (c a b)) {xs : List T}
    (hxs : xs ⊆ rows) : (sortBy compare xs).outcome = .ok (xs.mergeSort (ahead c)) := by
  have hdecides : StableSort.Decides (fun a b => compare a b >>= fun o => .done (o == .lt)) c
      (· ∈ rows) := fun a b ha hb => Run.outcome_bind_ok (h a ha b hb) _
  exact StableSort.outcome_sort hdecides fun a ha => hxs ha

/-- Without an order the list stays as it is. -/
theorem mergeSort_of_absent (xs : List T) : xs.mergeSort (ahead fun _ _ => .eq) = xs :=
  List.mergeSort_of_pairwise (List.pairwise_of_forall fun _ _ => rfl)

namespace SortOrder

/-- A comparison in a direction is as total as the comparison. -/
theorem transCmp_apply {c : T → T → Ordering} (h : Std.TransCmp c) (direction : Direction) :
    Std.TransCmp fun a b => direction.apply (c a b) := by
  cases direction with
  | ascending => exact h
  | descending =>
    have hswap : (fun a b => Direction.descending.apply (c a b)) = fun a b => c b a := by
      funext a b
      exact h.toOrientedCmp.eq_swap.symm
    rw [hswap]
    infer_instance

/-- A second comparison counts where the first one tells nothing apart. -/
theorem outcome_then {y : Run Ordering} (o : Ordering) {o' : Ordering}
    (hy : y.outcome = .ok o') :
    (if o = .eq then y else .done o).outcome = .ok (o.then o') := by
  cases o with
  | lt => rfl
  | eq => exact hy
  | gt => rfl

/-- The comparison by a single key is that of the key. -/
theorem outcome_compareByKeys_single {key : SortKey T} {a b : T} {o : Ordering}
    (h : (key.compare a b).outcome = .ok o) : (compareByKeys [key] a b).outcome = .ok o := by
  unfold compareByKeys
  rw [Run.outcome_bind_ok h, outcome_then o rfl, Ordering.then_eq]

/-- **Entities are compared by data that they have**, where the comparison of such data is a
total preorder. -/
theorem exists_comparison_of_data {K : Type} {D : K → Prop} {compare : K → K → Ordering}
    (total : Std.TransCmp fun x y : {x // D x} => compare x y) {rows : List T}
    {datum : T → Run K} (present : ∀ e ∈ rows, ∃ x, (datum e).outcome = .ok x ∧ D x) :
    ∃ c, Std.TransCmp c ∧ ∀ a ∈ rows, ∀ b ∈ rows, ∃ x y, (datum a).outcome = .ok x ∧
      (datum b).outcome = .ok y ∧ c a b = compare x y := by
  -- the datum of an entity, if it is one that is compared
  have hdatum : ∀ e, ∃ x : Option {x // D x}, e ∈ rows →
      ∃ y, x = some y ∧ (datum e).outcome = .ok y.1 := by
    intro e
    by_cases he : e ∈ rows
    · obtain ⟨x, hx, hD⟩ := present e he
      exact ⟨some ⟨x, hD⟩, fun _ => ⟨⟨x, hD⟩, rfl, hx⟩⟩
    · exact ⟨none, fun h => absurd h he⟩
  choose known hknown using hdatum
  refine ⟨_, transCmp_comap (FieldType.transCmp_optionCompare total) known, fun a ha b hb => ?_⟩
  obtain ⟨x, hx, hdx⟩ := hknown a ha
  obtain ⟨y, hy, hdy⟩ := hknown b hb
  refine ⟨x, y, hdx, hdy, ?_⟩
  rw [hx, hy]
  rfl

/-- **An order that is total on some entities**: it compares any two of them without a
fault, by a total preorder. -/
def TotalOn (o : SortOrder T) (rows : List T) : Prop :=
  ∃ c, Std.TransCmp c ∧ ∀ a ∈ rows, ∀ b ∈ rows, (o.compare a b).outcome = .ok (c a b)

/-- **How an order ranks entities**, if there is one: by a comparison that is a total
preorder. -/
structure Ranks (order : Option (SortOrder T)) (rows : List T) (c : T → T → Ordering) :
    Prop where
  /-- The comparison is a total preorder. -/
  total : Std.TransCmp c
  /-- By the order. -/
  direct : ∀ o ∈ order, ∀ a ∈ rows, ∀ b ∈ rows, (o.compare a b).outcome = .ok (c a b)
  /-- Without an order nothing is told apart. -/
  absent : order = none → c = fun _ _ => .eq

theorem exists_ranks {order : Option (SortOrder T)} {rows : List T}
    (h : ∀ o ∈ order, o.TotalOn rows) : ∃ c, Ranks order rows c := by
  cases order with
  | none =>
    exact ⟨fun _ _ => .eq, { eq_swap := rfl, isLE_trans := fun _ _ => rfl },
      (fun o ho => nomatch ho), fun _ => rfl⟩
  | some o =>
    obtain ⟨c, htotal, hdirect⟩ := h o rfl
    refine ⟨c, htotal, fun o' ho' => ?_, fun hnone => nomatch hnone⟩
    cases ho'
    exact hdirect

/-- **An order arranges** by the comparison. -/
theorem Ranks.outcome_arrange {order : Option (SortOrder T)} {rows : List T}
    {c : T → T → Ordering} (h : Ranks order rows c) {xs : List T} (hxs : xs ⊆ rows) :
    (arrange order xs).outcome = .ok (xs.mergeSort (ahead c)) := by
  have := h.total
  cases order with
  | none =>
    rw [h.absent rfl, mergeSort_of_absent]
    rfl
  | some order => exact outcome_sortBy (h.direct order rfl) hxs

end SortOrder

/-! ## Selections -/

namespace Evaluator

variable {p : Predicate T} {rows : List T} {order : Option (SortOrder T)}
  {c : T → T → Ordering}

/-- A pass that chooses by a comparison of the rows. -/
theorem outcome_fold_choose {choose : Option T → T → Run (Option T)}
    {f : Option T → T → Option T} {rows xs : List T} (hxs : xs ⊆ rows)
    (hnone : ∀ e, choose none e = .done (f none e))
    (hsome : ∀ a ∈ rows, ∀ e ∈ rows, (choose (some a) e).outcome = .ok (f (some a) e))
    (hmem : ∀ best e, f best e = some e ∨ f best e = best) :
    (Run.fold choose none xs).outcome = .ok (xs.foldl f none) := by
  refine Run.outcome_fold (fun best => ∀ b ∈ best, b ∈ rows) (fun best hbest e he => ?_)
    (fun b hb => nomatch hb)
  have he' : e ∈ rows := hxs he
  refine ⟨?_, fun b hb => ?_⟩
  · cases best with
    | none => rw [hnone]; rfl
    | some a => exact hsome a (hbest a rfl) e he'
  · cases hmem best e with
    | inl h => rw [h] at hb; cases hb; exact he'
    | inr h => rw [h] at hb; exact hbest b hb

section

variable (h : p.Decides rows) (ho : SortOrder.Ranks order rows c) (negate : Bool)
  (limits : Limits) (wanted : Bool)

include h

/-- Keeping what is accepted keeps what is wanted. -/
theorem outcome_keep_accepts :
    (Run.keep ((Evaluator.mk p negate limits).accepts wanted) rows).outcome
      = .ok (chosen p (negate == wanted) rows) :=
  Run.outcome_keep fun e he => outcome_accepts (h e he) negate limits wanted

/-- Keeping what passes keeps what is chosen. -/
theorem outcome_keep_passed :
    (Run.keep ((Evaluator.mk p negate limits).accepts true) rows).outcome
      = .ok (chosen p negate rows) := by
  have hkeep := outcome_keep_accepts h negate limits true
  rwa [beq_true] at hkeep

/-- Asking for an entity that passes is asking whether any is chosen. -/
theorem outcome_any :
    ((Evaluator.mk p negate limits).any rows).outcome
      = .ok (!(chosen p negate rows).isEmpty) := by
  refine (Run.outcome_exist fun e he => outcome_evaluate (h e he) negate limits).trans
    (congrArg Except.ok ?_)
  rw [Bool.eq_iff_iff, List.any_eq_true, Bool.not_eq_true', List.isEmpty_eq_false_iff_exists_mem]
  exact exists_congr fun e => by rw [chosen, List.mem_filter]

/-- Counting is counting what is chosen. -/
theorem outcome_count :
    ((Evaluator.mk p negate limits).count rows).outcome = .ok (chosen p negate rows).length :=
  Run.outcome_bind_ok (Run.outcome_keep fun e he => outcome_evaluate (h e he) negate limits) _

/-- A pass over the rows chooses among those that are wanted. -/
theorem outcome_scan (choose : Option T → T → Run (Option T)) :
    ((Evaluator.mk p negate limits).scan wanted choose rows).outcome
      = (Run.fold choose none (chosen p (negate == wanted) rows)).outcome :=
  Run.outcome_fold_keep choose none fun e he => outcome_accepts (h e he) negate limits wanted

include ho

/-- **Lists of entities** are the arranged rows that are wanted. -/
theorem outcome_select :
    ((Evaluator.mk p negate limits).select rows order wanted).outcome
      = .ok ((chosen p (negate == wanted) rows).mergeSort (ahead c)) := by
  unfold select
  rw [Run.outcome_bind_ok (outcome_keep_accepts h negate limits wanted)]
  exact ho.outcome_arrange List.filter_sublist.subset

/-- **All entities that pass** are the arranged rows that are chosen. -/
theorem outcome_select_passed :
    ((Evaluator.mk p negate limits).select rows order true).outcome
      = .ok ((chosen p negate rows).mergeSort (ahead c)) := by
  have hselect := outcome_select h ho negate limits true
  rwa [beq_true] at hselect

/-- **The first entity** is the head of the arranged rows. -/
theorem outcome_firstWhere :
    ((Evaluator.mk p negate limits).firstWhere rows order wanted).outcome
      = .ok ((chosen p (negate == wanted) rows).mergeSort (ahead c)).head? := by
  have := ho.total
  cases order with
  | none =>
    rw [ho.absent rfl, mergeSort_of_absent]
    unfold firstWhere chosen
    rw [List.head?_filter]
    exact Run.outcome_first? fun e he => outcome_accepts (h e he) negate limits wanted
  | some order =>
    show ((Evaluator.mk p negate limits).scan wanted (earlier order) rows).outcome = _
    rw [outcome_scan h, ← StableSort.foldl_earlierOf]
    refine outcome_fold_choose List.filter_sublist.subset (fun _ => rfl) (fun a ha e he => ?_)
      StableSort.earlierOf_eq
    exact (Run.outcome_bind_ok (ho.direct order rfl e he a ha) _).trans rfl

/-- **The last entity** is the last of the arranged rows. -/
theorem outcome_lastWhere :
    ((Evaluator.mk p negate limits).lastWhere rows order wanted).outcome
      = .ok ((chosen p (negate == wanted) rows).mergeSort (ahead c)).getLast? := by
  have := ho.total
  rw [← StableSort.foldl_laterOf]
  cases order with
  | none =>
    show ((Evaluator.mk p negate limits).scan wanted (fun _ e => .done (some e)) _).outcome = _
    rw [outcome_scan h]
    refine outcome_fold_choose List.filter_sublist.subset (fun _ => rfl) (fun a _ e _ => ?_)
      StableSort.laterOf_eq
    rw [ho.absent rfl]
    rfl
  | some order =>
    show ((Evaluator.mk p negate limits).scan wanted (later order) rows).outcome = _
    rw [outcome_scan h]
    refine outcome_fold_choose List.filter_sublist.subset (fun _ => rfl) (fun a ha e he => ?_)
      StableSort.laterOf_eq
    exact (Run.outcome_bind_ok (ho.direct order rfl e he a ha) _).trans rfl

end

end Evaluator

/-! ## A sample -/

/-- Pairs of flags, one of them twice. -/
def Predicate.flagRows : List (Bool × Bool) :=
  [(true, false), (false, false), (true, true), (false, true), (false, false)]

theorem Predicate.flags_decides : flags.Decides flagRows := fun e _ => by
  obtain ⟨left, right⟩ := e
  cases left <;> cases right <;> exact ⟨_, rfl⟩

/-- Pairs of flags by the second one, the set ones first: an order that ties many of
them. -/
def SortOrder.rightFirst : SortOrder (Bool × Bool) :=
  unordered.thenBy Predicate.rightFlag .descending

theorem SortOrder.rightFirst_totalOn (rows : List (Bool × Bool)) : rightFirst.TotalOn rows := by
  have hright := transCmp_comap (FieldType.transCmp_compare .bool)
    (Prod.snd : Bool × Bool → Bool)
  refine ⟨fun a b => FieldType.compare .bool b.2 a.2, ?_, fun a _ b _ => ?_⟩
  · exact inferInstanceAs (Std.TransCmp fun a b : Bool × Bool => FieldType.compare .bool b.2 a.2)
  · obtain ⟨a₁, a₂⟩ := a
    obtain ⟨b₁, b₂⟩ := b
    cases a₂ <;> cases b₂ <;> rfl

end Criteria
