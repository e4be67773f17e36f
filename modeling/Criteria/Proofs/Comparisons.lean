import Criteria.Expr.Evaluation
import Criteria.Proofs.ValueOrder

/-!
# Operators and the comparison by which descriptions sort

An expression compares two values by equality, which is defined for all of them, or by an order,
which is defined between two numbers and between two strings. Descriptions sort by one comparison
of all values. These are three recursions, and each decides for itself what kinds it looks at.

They are coherent (`Value.compare_coheres`). Where values are ordered, exactly one of "less",
"equal" and "greater" is true of them, and it is the one that the comparison answers; "at most"
and "at least" are made of these. Elsewhere no order is true. And the values that tie in a sort
are those that are equal, arrays and objects included, however deep they are.

A pair of numbers is converted in one way for all of this, so nothing is asked of their kinds.
What is asked is that there is no not-a-number, of which "at most" is true and neither "less" nor
"equal".
-/

namespace Criteria

namespace Value

/-! ## Equality is symmetric -/

theorem eqElements_symm {xs ys : List Value} (h : ∀ x ∈ xs, ∀ y, x.eq y = y.eq x) :
    eqElements xs ys = eqElements ys xs := by
  induction xs generalizing ys with
  | nil => cases ys <;> rfl
  | cons x xs ih =>
    cases ys with
    | nil => rfl
    | cons y ys =>
      rw [eqElements, eqElements, h x List.mem_cons_self,
        ih fun u hu => h u (List.mem_cons_of_mem x hu)]

theorem eqMembers_symm {ms ns : List (Text × Value)} (h : ∀ m ∈ ms, ∀ y, m.2.eq y = y.eq m.2) :
    eqMembers ms ns = eqMembers ns ms := by
  induction ms generalizing ns with
  | nil => cases ns <;> rfl
  | cons m ms ih =>
    cases ns with
    | nil => rfl
    | cons n ns =>
      rw [eqMembers, eqMembers, h m List.mem_cons_self,
        ih fun u hu => h u (List.mem_cons_of_mem m hu), decide_eq_decide.mpr eq_comm]

/-- **Equality is symmetric**, for all values. -/
theorem eq_symm (a b : Value) : a.eq b = b.eq a := by
  -- values of two kinds differ, whichever comes first
  induction over_true a generalizing b with
  | null => cases b <;> rfl
  | bool x =>
    cases b with
    | bool y => exact Bool.beq_comm
    | _ => rfl
  | @number m =>
    cases b with
    | number n => exact Number.eq_symm m n
    | _ => rfl
  | string s =>
    cases b with
    | string t => exact decide_eq_decide.mpr eq_comm
    | _ => rfl
  | array _ ih =>
    cases b with
    | array ys => exact eqElements_symm fun x hx y => ih x hx y
    | _ => rfl
  | object _ ih =>
    cases b with
    | object ns => exact eqMembers_symm fun m hm y => ih m hm y
    | _ => rfl

/-! ## Equal values tie -/

section

variable {rank : Kind → Nat}

theorem compareElements_eq_iff {xs ys : List Value}
    (h : ∀ x ∈ xs, ∀ y ∈ ys, (compareBy rank x y = .eq ↔ x.eq y = true)) :
    compareElements rank xs ys = .eq ↔ eqElements xs ys = true := by
  induction xs generalizing ys with
  | nil => cases ys <;> simp [compareElements, eqElements]
  | cons x xs ih =>
    cases ys with
    | nil => simp [compareElements, eqElements]
    | cons y ys =>
      rw [compareElements, eqElements, Ordering.then_eq_eq, Bool.and_eq_true,
        h x List.mem_cons_self y List.mem_cons_self,
        ih fun u hu w hw => h u (List.mem_cons_of_mem x hu) w (List.mem_cons_of_mem y hw)]

theorem compareMembers_eq_iff {ms ns : List (Text × Value)}
    (h : ∀ m ∈ ms, ∀ n ∈ ns, (compareBy rank m.2 n.2 = .eq ↔ m.2.eq n.2 = true)) :
    compareMembers rank ms ns = .eq ↔ eqMembers ms ns = true := by
  induction ms generalizing ns with
  | nil => cases ns <;> simp [compareMembers, eqMembers]
  | cons m ms ih =>
    cases ns with
    | nil => simp [compareMembers, eqMembers]
    | cons n ns =>
      rw [compareMembers, eqMembers, Ordering.then_eq_eq, Ordering.then_eq_eq, Bool.and_eq_true,
        Bool.and_eq_true, decide_eq_true_iff, threeWay_text_eq_iff,
        h m List.mem_cons_self n List.mem_cons_self,
        ih fun u hu w hw => h u (List.mem_cons_of_mem m hu) w (List.mem_cons_of_mem n hw),
        and_assoc]

/-- Two values of different kinds are not equal. -/
theorem eq_of_kind_ne {a b : Value} (h : a.kind ≠ b.kind) : a.eq b = false := by
  cases a <;> cases b <;> first | rfl | exact absurd rfl h

/-- Two values of different kinds do not tie. -/
theorem compareBy_ne_eq_of_kind_ne (hrank : Function.Injective rank) {a b : Value}
    (h : a.kind ≠ b.kind) : compareBy rank a b ≠ .eq := by
  rw [compareBy_of_kind_ne h, Ne, threeWay_eq_eq_iff, decide_eq_false_iff_not,
    decide_eq_false_iff_not]
  have hne : rank a.kind ≠ rank b.kind := fun heq => h (hrank heq)
  omega

/-- Two values need to be looked at only if they are of one kind. -/
theorem ties_of_kind (hrank : Function.Injective rank) {a b : Value}
    (h : b.kind = a.kind → (compareBy rank a b = .eq ↔ a.eq b = true)) :
    compareBy rank a b = .eq ↔ a.eq b = true := by
  by_cases hkind : b.kind = a.kind
  · exact h hkind
  · rw [eq_of_kind_ne (Ne.symm hkind)]
    exact iff_of_false (compareBy_ne_eq_of_kind_ne hrank (Ne.symm hkind)) Bool.false_ne_true

/-- **The values that tie are those that are equal**, if there is no not-a-number in them. -/
theorem compareBy_eq_iff (hrank : Function.Injective rank) {a b : Value} (ha : a.Over IsNumeric)
    (hb : b.Over IsNumeric) : compareBy rank a b = .eq ↔ a.eq b = true := by
  induction ha generalizing b with
  | null =>
    refine ties_of_kind hrank fun hkind => ?_
    cases b with
    | null => exact iff_of_true rfl rfl
    | _ => cases hkind
  | bool x =>
    refine ties_of_kind hrank fun hkind => ?_
    cases b with
    | bool y => cases x <;> cases y <;> simp [compareBy, eq, threeWay]
    | _ => cases hkind
  | number hm =>
    refine ties_of_kind hrank fun hkind => ?_
    cases hb with
    | number hn => exact threeWay_eq_eq_iff.trans (Number.eq_iff_not_lt hm hn).symm
    | _ => cases hkind
  | string s =>
    refine ties_of_kind hrank fun hkind => ?_
    cases b with
    | string t => exact (threeWay_text_eq_iff s t).trans decide_eq_true_iff.symm
    | _ => cases hkind
  | array _ ih =>
    refine ties_of_kind hrank fun hkind => ?_
    cases hb with
    | array hys => exact compareElements_eq_iff fun x hx y hy => ih x hx (hys y hy)
    | _ => cases hkind
  | object _ ih =>
    refine ties_of_kind hrank fun hkind => ?_
    cases hb with
    | object hns => exact compareMembers_eq_iff fun m hm n hn => ih m hm (hns n hn)
    | _ => cases hkind

end

/-! ## Ordered values -/

/-- **Two values that are ordered**: both are numbers, or both are strings. -/
inductive Ordered : Value → Value → Prop
  | numbers (m n : Number) : Ordered (.number m) (.number n)
  | strings (s t : Text) : Ordered (.string s) (.string t)

/-- The operator that is true of two ordered values with this comparison. -/
def operatorOf : Ordering → BinaryOp
  | .lt => .lt
  | .eq => .eq
  | .gt => .gt

section

variable {a b : Value}

/-- **Of ordered values, what the comparison answers is true**, and nothing else is. -/
theorem Ordered.compare_operatorOf (h : Ordered a b) (ha : a.Over IsNumeric)
    (hb : b.Over IsNumeric) (o : Ordering) :
    (operatorOf o).compare a b = decide (a.compare b = o) := by
  rw [Bool.eq_iff_iff, decide_eq_true_iff]
  cases o with
  | eq => exact (compareBy_eq_iff describedRank_injective ha hb).symm
  | lt =>
    cases h with
    | numbers m n => exact threeWay_eq_lt_iff.symm
    | strings s t => exact threeWay_eq_lt_iff.symm
  | gt =>
    cases h with
    | numbers m n => exact (threeWay_eq_gt_iff (Number.lt_asymm m n)).symm
    | strings s t => exact (threeWay_eq_gt_iff Text.lt_asymm).symm

/-- Of ordered values, "at most" is "not greater" and "at least" is "not less". -/
theorem Ordered.compare_le (h : Ordered a b) :
    BinaryOp.le.compare a b = !BinaryOp.gt.compare a b := by
  cases h <;> rfl

theorem Ordered.compare_ge (h : Ordered a b) :
    BinaryOp.ge.compare a b = !BinaryOp.lt.compare a b := by
  cases h <;> rfl

/-- Of ordered values, what is not less is greater or equal, and the other way round. -/
theorem Ordered.not_compare (h : Ordered a b) (ha : a.Over IsNumeric) (hb : b.Over IsNumeric)
    {o : Ordering} (ho : o ≠ .eq) :
    (!(operatorOf o).compare a b)
      = ((operatorOf o.swap).compare a b || BinaryOp.eq.compare a b) := by
  have hanswer := h.compare_operatorOf ha hb
  show _ = (_ || (operatorOf .eq).compare a b)
  rw [hanswer, hanswer, hanswer]
  revert ho
  cases o <;> cases a.compare b <;> decide

/-- No order is true of other values. -/
theorem onOrdered_of_not_ordered (h : ¬ Ordered a b) (number : Number → Number → Bool)
    (text : Text → Text → Bool) : BinaryOp.onOrdered number text a b = false := by
  unfold BinaryOp.onOrdered
  split
  · exact absurd (Ordered.numbers _ _) h
  · exact absurd (Ordered.strings _ _) h
  · rfl

end

/-! ## Coherence -/

/-- **The operators and the comparison agree** on two values. -/
structure Coheres (a b : Value) : Prop where
  /-- Values differ if they are not equal. -/
  complement : BinaryOp.ne.compare a b = !BinaryOp.eq.compare a b
  /-- Equality is symmetric. -/
  symm : BinaryOp.eq.compare a b = BinaryOp.eq.compare b a
  /-- Exactly one of "less", "equal" and "greater" is true of ordered values. -/
  exactlyOne : Ordered a b → ∃! o, (operatorOf o).compare a b = true
  /-- It is the one that the comparison answers. -/
  answer : Ordered a b → ∀ o, (operatorOf o).compare a b = true ↔ a.compare b = o
  /-- At most is less or equal. -/
  atMost : Ordered a b →
    BinaryOp.le.compare a b = (BinaryOp.lt.compare a b || BinaryOp.eq.compare a b)
  /-- At least is greater or equal. -/
  atLeast : Ordered a b →
    BinaryOp.ge.compare a b = (BinaryOp.gt.compare a b || BinaryOp.eq.compare a b)
  /-- No order is true of other values. -/
  unordered : ¬ Ordered a b → BinaryOp.lt.compare a b = false ∧ BinaryOp.le.compare a b = false ∧
    BinaryOp.gt.compare a b = false ∧ BinaryOp.ge.compare a b = false
  /-- The values that tie are those that are equal. -/
  tie : a.compare b = .eq ↔ BinaryOp.eq.compare a b = true

/-- **Operators and the comparison are coherent** on all values without a not-a-number, of
whatever kinds and however deep. -/
theorem compare_coheres {a b : Value} (ha : a.Over IsNumeric) (hb : b.Over IsNumeric) :
    Coheres a b where
  complement := rfl
  symm := eq_symm a b
  exactlyOne h := by
    have hanswer := h.compare_operatorOf ha hb
    refine ⟨a.compare b, (hanswer _).trans (decide_eq_true rfl), fun o ho => ?_⟩
    exact (of_decide_eq_true ((hanswer o).symm.trans ho)).symm
  answer h o := by rw [h.compare_operatorOf ha hb, decide_eq_true_iff]
  atMost h := h.compare_le.trans (h.not_compare ha hb (o := .gt) nofun)
  atLeast h := h.compare_ge.trans (h.not_compare ha hb (o := .lt) nofun)
  unordered h := ⟨onOrdered_of_not_ordered h _ _, onOrdered_of_not_ordered h _ _,
    onOrdered_of_not_ordered h _ _, onOrdered_of_not_ordered h _ _⟩
  tie := compareBy_eq_iff describedRank_injective ha hb

/-- Two integers of which the greater one comes first, as a signed word, and two numbers of
different kinds that tie, deep in arrays. -/
theorem compare_coheres_mixed :
    (uint 18446744073709551614).Over IsNumeric ∧ (int (-1)).Over IsNumeric ∧
      Coheres (uint 18446744073709551614) (int (-1)) ∧
      Coheres (array [object [("a", uint 1)]])
        (array [object [("a", float (.ofInt .double 1))]]) := by
  have huint {n : UInt64} : (uint n).Over IsNumeric := .number fun _ h => nomatch h
  have hint : (int (-1)).Over IsNumeric := .number fun _ h => nomatch h
  have hfloat : (float (.ofInt .double 1)).Over IsNumeric := .number fun x h => by
    rw [← Number.float.inj h]
    exact Floating.ofInt_ne_nan 1
  have hnested {v : Value} (hv : v.Over IsNumeric) :
      (array [object [("a", v)]]).Over IsNumeric := by
    refine .array fun x hx => ?_
    rw [List.mem_singleton.mp hx]
    refine .object fun m hm => ?_
    rw [List.mem_singleton.mp hm]
    exact hv
  exact ⟨huint, hint, compare_coheres huint hint,
    compare_coheres (hnested huint) (hnested hfloat)⟩

/-- Not-a-number is at most and at least itself, and neither less, equal nor greater. -/
example :
    let nan := float ⟨.nan, trivial⟩
    BinaryOp.le.compare nan nan = true ∧ BinaryOp.ge.compare nan nan = true ∧
      BinaryOp.lt.compare nan nan = false ∧ BinaryOp.eq.compare nan nan = false ∧
      BinaryOp.gt.compare nan nan = false := by
  decide

end Value

end Criteria
